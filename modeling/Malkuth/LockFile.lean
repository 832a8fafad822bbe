import Mathlib.Logic.Function.Basic

/-! Processes that race for the file at one path. A file keeps its identity when its name is
removed, so a descriptor may write to a file that the path no longer names. Each process is at
a point of its program; some of those points claim the file as the process's own. -/
namespace LockFile

/-- `creator` is the process that last opened it to create it; a file that was there before
has none. -/
structure File (ι γ : Type) where
  inode : Nat
  creator : Option ι
  content : γ
  deriving DecidableEq

structure Race (ι γ α : Type) where
  file : Option (File ι γ)
  fresh : Nat
  alive : ι → Bool
  point : ι → α

section Operations

variable {ι γ α : Type} [DecidableEq ι]

def Race.move (r : Race ι γ α) (i : ι) (a : α) : Race ι γ α :=
  { r with point := Function.update r.point i a }

def Race.create (r : Race ι γ α) (i : ι) (empty : γ) : Race ι γ α :=
  { r with file := some ⟨r.fresh,some i,empty⟩, fresh := r.fresh + 1 }

def Race.truncate (r : Race ι γ α) (i : ι) (empty : γ) : Race ι γ α :=
  { r with file := r.file.map fun f => { f with creator := some i, content := empty } }

def Race.write (r : Race ι γ α) (inode : Nat) (content : γ → γ) : Race ι γ α :=
  { r with file := r.file.map fun f => if f.inode = inode then { f with content := content f.content } else f }

def Race.remove (r : Race ι γ α) : Race ι γ α := { r with file := none }

def Race.die (r : Race ι γ α) (i : ι) : Race ι γ α := { r with alive := Function.update r.alive i false }

/-- A process starts under an identity that is free again. -/
def Race.born (r : Race ι γ α) (i : ι) (outside : α) : Race ι γ α :=
  { r.move i outside with alive := Function.update r.alive i true }

end Operations

section Claims

variable {ι γ α : Type} (claims : α → Bool)

def Race.Claims (r : Race ι γ α) (i : ι) : Prop := r.alive i = true ∧ claims (r.point i) = true

/-- No live process claims the file that is there. -/
def Unclaimed (r : Race ι γ α) : Prop := ∀ f ∈ r.file, ∀ i ∈ f.creator, ¬ r.Claims claims i

instance (r : Race ι γ α) : Decidable (Unclaimed claims r) :=
  inferInstanceAs (Decidable (∀ f ∈ r.file, ∀ i ∈ f.creator,
    ¬ (r.alive i = true ∧ claims (r.point i) = true)))

/-- Whoever claims the file has created the one that is there. -/
def Sole (r : Race ι γ α) : Prop := ∀ i, r.Claims claims i → ∃ f, r.file = some f ∧ f.creator = some i

variable {claims} {r : Race ι γ α}

theorem Sole.unique (sole : Sole claims r) (first : r.Claims claims i) (second : r.Claims claims j) : i = j := by
  obtain ⟨f,file,creator⟩ := sole i first
  obtain ⟨f',file',creator'⟩ := sole j second
  obtain rfl := Option.some.inj (file.symm.trans file')
  exact Option.some.inj (creator.symm.trans creator')

/-- An unclaimed file is claimed by nobody at all. -/
theorem Sole.nobody (sole : Sole claims r) (unclaimed : Unclaimed claims r) (i : ι) : ¬ r.Claims claims i := by
  intro claimed
  obtain ⟨f,file,creator⟩ := sole i claimed
  exact unclaimed f file i creator claimed

/-- Where everybody who claims the file did so before, and its creator is the same, nothing
has changed. -/
theorem Sole.keep (sole : Sole claims r) (r' : Race ι γ α) (before : ∀ i, r'.Claims claims i → r.Claims claims i)
    (file : ∀ f ∈ r.file, ∃ f' ∈ r'.file, f'.creator = f.creator) : Sole claims r' := by
  intro i claimed
  obtain ⟨f,present,creator⟩ := sole i (before i claimed)
  obtain ⟨f',present',same⟩ := file f present
  exact ⟨f',present',same.trans creator⟩

/-- Where nobody claimed it, the one process that now may is its creator. -/
theorem Sole.take (nobody : ∀ i, ¬ r.Claims claims i) {r' : Race ι γ α} (i : ι)
    (others : ∀ j, j ≠ i → r'.Claims claims j → r.Claims claims j)
    (file : r'.Claims claims i → ∃ f, r'.file = some f ∧ f.creator = some i) : Sole claims r' := by
  intro j claimed
  by_cases same : j = i
  · subst same
    exact file claimed
  · exact absurd (others j same claimed) (nobody j)

variable [DecidableEq ι]

theorem move_claims_other (a : α) (other : j ≠ i) : (r.move i a).Claims claims j ↔ r.Claims claims j := by
  simp [Race.Claims,Race.move,other]

theorem move_claims (a : α) (silent : claims a = true → claims (r.point i) = true)
    (claimed : (r.move i a).Claims claims j) : r.Claims claims j := by
  by_cases same : j = i
  · subst same
    exact ⟨claimed.1,silent (by simpa [Race.move] using claimed.2)⟩
  · exact (move_claims_other a same).mp claimed

/-- A move to a point that claims nothing new. -/
theorem Sole.move (sole : Sole claims r) (i : ι) (a : α) (silent : claims a = true → claims (r.point i) = true) :
    Sole claims (r.move i a) :=
  sole.keep _ (fun _ => move_claims a silent) fun f present => ⟨f,present,rfl⟩

theorem Sole.create (sole : Sole claims r) (absent : r.file = none) (i : ι) (empty : γ) (a : α) :
    Sole claims ((r.create i empty).move i a) := by
  have unclaimed : Unclaimed claims r := by simp [Unclaimed,absent]
  apply Sole.take (sole.nobody unclaimed) i
  · intro j other claimed
    exact (move_claims_other a other).mp claimed
  · exact fun _ => ⟨_,rfl,rfl⟩

theorem Sole.truncate (sole : Sole claims r) (unclaimed : Unclaimed claims r) (present : r.file = some f) (i : ι)
    (empty : γ) (a : α) : Sole claims ((r.truncate i empty).move i a) := by
  apply Sole.take (sole.nobody unclaimed) i
  · intro j other claimed
    exact (move_claims_other a other).mp claimed
  · exact fun _ => ⟨{ f with creator := some i, content := empty },by simp [Race.truncate,Race.move,present],rfl⟩

omit [DecidableEq ι] in
theorem Sole.write (sole : Sole claims r) (inode : Nat) (content : γ → γ) : Sole claims (r.write inode content) := by
  apply sole.keep (r.write inode content) fun _ claimed => claimed
  intro f present
  refine ⟨_,Option.mem_map_of_mem _ present,?_⟩
  split <;> rfl

omit [DecidableEq ι] in
theorem Sole.remove (sole : Sole claims r) (unclaimed : Unclaimed claims r) : Sole claims r.remove :=
  fun i claimed => absurd claimed (sole.nobody unclaimed i)

/-- Who claims the file and gives it up may remove it. -/
theorem Sole.discard (sole : Sole claims r) (own : r.Claims claims i) (a : α) (silent : claims a = false) :
    Sole claims (r.remove.move i a) := by
  intro j claimed
  by_cases same : j = i
  · subst same
    simp [Race.Claims,Race.move,silent] at claimed
  · exact absurd (sole.unique ((move_claims_other a same).mp claimed) own) same

theorem Sole.die (sole : Sole claims r) (i : ι) : Sole claims (r.die i) := by
  refine sole.keep (r.die i) ?_ fun f present => ⟨f,present,rfl⟩
  rintro j ⟨alive,claimed⟩
  by_cases same : j = i
  · subst same
    simp [Race.die] at alive
  · exact ⟨by simpa [Race.die,same] using alive,claimed⟩

theorem Sole.born (sole : Sole claims r) (i : ι) (outside : α) (silent : claims outside = false) :
    Sole claims (r.born i outside) := by
  refine sole.keep (r.born i outside) ?_ fun f present => ⟨f,present,rfl⟩
  rintro j ⟨alive,claimed⟩
  by_cases same : j = i
  · subst same
    simp [Race.born,Race.move,silent] at claimed
  · exact ⟨by simpa [Race.born,Race.move,same] using alive,by simpa [Race.born,Race.move,same] using claimed⟩

end Claims

end LockFile
