import Malkuth.Blanks
import Mathlib.Data.List.TakeWhile

/-! The paths that `lock.rs` and `lease.rs` make of a key, and which keys have them in common.
Keys, names and paths are lists of characters. -/
namespace Malkuth.LockPaths

abbrev Key := List Char
abbrev Path := List Char

def isPlain (c : Char) : Bool := c.isAlphanum || c == '-' || c == '_'

/-- The loop of both `sanitize`, and the name of the empty key. -/
def sanitized (key : Key) : List Char :=
  let out := key.map fun c => if isPlain c then c else '_'
  if out = [] then "default".toList else out

def join (root name : List Char) : Path :=
  if root.getLast?.any (· ≠ '/') then root ++ '/' :: name else root ++ name

def fileStem (name : List Char) : List Char :=
  let before := (name.reverse.dropWhile (· ≠ '.')).tail.reverse
  if name = "..".toList ∨ before = [] then name else before

/-- The file name of `with_extension`. -/
def withExtension (name extension : List Char) : List Char := fileStem name ++ '.' :: extension

def FileLock.sanitize (key : Key) : List Char := sanitized key ++ ".lock".toList

def LeaseLock.sanitize (key : Key) : List Char := sanitized key ++ ".lease".toList

def lockPath (root : Path) (key : Key) : Path := join root (FileLock.sanitize key)

def leasePath (root : Path) (key : Key) : Path := join root (LeaseLock.sanitize key)

def tmpPath (root : Path) (key : Key) : Path := join root (withExtension (LeaseLock.sanitize key) "tmp".toList)

/-- Keys of one file: they differ only in characters that become `_`, or one is empty and the
other is `default`. -/
def Alike (k₁ k₂ : Key) : Prop :=
  Blanks.Alike isPlain '_' k₁ k₂ ∨ (k₁ = [] ∧ k₂ = "default".toList) ∨ (k₁ = "default".toList ∧ k₂ = [])

instance (k₁ k₂ : Key) : Decidable (Alike k₁ k₂) := inferInstanceAs (Decidable (_ ∨ _))

theorem sanitized_eq (key : Key) : sanitized key = if key = [] then "default".toList else Blanks.replace isPlain '_' key := by
  unfold sanitized
  simp only [List.map_eq_nil_iff]
  rfl

theorem plain_default : ∀ c ∈ "default".toList, Blanks.isBlank isPlain '_' c = false := by
  have chars : "default".toList = ['d','e','f','a','u','l','t'] := rfl
  intro c member
  simp only [chars,List.mem_cons,List.not_mem_nil,or_false] at member
  rcases member with rfl | rfl | rfl | rfl | rfl | rfl | rfl <;> rfl

theorem sanitized_eq_iff (k₁ k₂ : Key) : sanitized k₁ = sanitized k₂ ↔ Alike k₁ k₂ := by
  have default_ (k : Key) : Blanks.replace isPlain '_' k = "default".toList ↔ k = "default".toList := by
    constructor
    · intro same
      rw [← Blanks.replace_plain plain_default,Blanks.replace_eq_iff] at same
      exact same.eq_plain plain_default
    · rintro rfl
      exact Blanks.replace_plain plain_default
  have empty (k : Key) : Blanks.Alike isPlain '_' [] k ↔ k = [] := List.forall₂_nil_left_iff
  have empty' (k : Key) : Blanks.Alike isPlain '_' k [] ↔ k = [] := List.forall₂_nil_right_iff
  rw [sanitized_eq,sanitized_eq,Alike]
  by_cases first : k₁ = []
  · by_cases second : k₂ = []
    · simp [first,second,empty]
    · rw [if_pos first,if_neg second,eq_comm,default_]
      simp [first,second,empty]
  · by_cases second : k₂ = []
    · rw [if_neg first,if_pos second,default_]
      simp [first,second,empty']
    · rw [if_neg first,if_neg second,Blanks.replace_eq_iff]
      simp [first,second]

theorem Alike.refl (k : Key) : Alike k k := (sanitized_eq_iff k k).mp rfl

theorem Alike.symm (alike : Alike k₁ k₂) : Alike k₂ k₁ :=
  (sanitized_eq_iff k₂ k₁).mp ((sanitized_eq_iff k₁ k₂).mpr alike).symm

theorem sanitized_ne_nil (key : Key) : sanitized key ≠ [] := by
  unfold sanitized
  dsimp only
  split
  · decide
  · assumption

theorem join_inj (root : Path) : join root n₁ = join root n₂ ↔ n₁ = n₂ := by
  unfold join
  split <;> simp

theorem fileStem_append (stem extension : List Char) (some_ : stem ≠ []) (long : extension ≠ [])
    (clean : '.' ∉ extension) : fileStem (stem ++ '.' :: extension) = stem := by
  have whole : (stem ++ '.' :: extension).reverse = extension.reverse ++ '.' :: stem.reverse := by simp
  have all : ∀ c ∈ extension.reverse, decide (c ≠ '.') = true := by
    intro c member
    exact decide_eq_true fun same => clean (same ▸ List.mem_reverse.mp member)
  have before : ((stem ++ '.' :: extension).reverse.dropWhile (· ≠ '.')).tail.reverse = stem := by
    rw [whole,List.dropWhile_append_of_pos all]
    simp
  have dots : stem ++ '.' :: extension ≠ "..".toList := by
    intro same
    have lengths := congrArg List.length same
    have first := List.length_pos_iff.mpr some_
    have second := List.length_pos_iff.mpr long
    simp at lengths
    omega
  unfold fileStem
  simp only [before]
  rw [if_neg]
  rintro (same | none_)
  · exact dots same
  · exact some_ none_

theorem tmpPath_eq (root : Path) (key : Key) : tmpPath root key = join root (sanitized key ++ ".tmp".toList) := by
  have stem : fileStem (LeaseLock.sanitize key) = sanitized key :=
    fileStem_append _ "lease".toList (sanitized_ne_nil key) (by decide) (by decide)
  rw [tmpPath,withExtension,stem]
  rfl

theorem lockPath_eq_iff (root : Path) (k₁ k₂ : Key) : lockPath root k₁ = lockPath root k₂ ↔ Alike k₁ k₂ := by
  rw [lockPath,lockPath,join_inj,FileLock.sanitize,FileLock.sanitize,List.append_left_inj,sanitized_eq_iff]

theorem leasePath_eq_iff (root : Path) (k₁ k₂ : Key) : leasePath root k₁ = leasePath root k₂ ↔ Alike k₁ k₂ := by
  rw [leasePath,leasePath,join_inj,LeaseLock.sanitize,LeaseLock.sanitize,List.append_left_inj,sanitized_eq_iff]

theorem tmpPath_eq_iff (root : Path) (k₁ k₂ : Key) : tmpPath root k₁ = tmpPath root k₂ ↔ Alike k₁ k₂ := by
  rw [tmpPath_eq,tmpPath_eq,join_inj,List.append_left_inj,sanitized_eq_iff]

/-- A temporary file is no lease file, whatever the keys. -/
theorem leasePath_ne_tmpPath (root : Path) (k₁ k₂ : Key) : leasePath root k₁ ≠ tmpPath root k₂ := by
  rw [tmpPath_eq,leasePath,ne_eq,join_inj]
  intro same
  have last := congrArg List.getLast? same
  simp [LeaseLock.sanitize] at last

end Malkuth.LockPaths
