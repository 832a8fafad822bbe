import Malkuth.BuildDiff

/-! How the pipeline recognises the supervised binary among the changed paths: `normalize_path` is
applied to the command at start-up and to the changed paths when a trigger comes, and the disk is
not the same then. -/
namespace Malkuth.BinaryPath

open BuildDiff (Name key key_injective)

inductive Component where
  | curDir
  | parentDir
  | normal (name : Name)
  deriving DecidableEq

/-- A path as it is written. An empty component, as in `a//b` or `a/`, stands for the directory
that it is in. -/
structure RawPath where
  absolute : Bool
  components : List Component
  deriving DecidableEq

def component (piece : List Char) : Component :=
  if some_ : piece = [] ∨ piece = ['.'] then .curDir
  else if piece = ['.','.'] then .parentDir
  else if plain : '/' ∉ piece then .normal ⟨piece,fun none_ => some_ (.inl none_),plain⟩
  else .curDir

def parse (text : String) : RawPath :=
  ⟨text.toList.head? = some '/',(text.toList.splitOn '/').map component⟩

inductive Entry where
  | file
  | dir
  | link (target : RawPath)
  deriving DecidableEq

abbrev Place := List Name

def Real (at_ : Place → Option Entry) (place : Place) : Prop :=
  ∀ front, front <+: place → ∀ target, at_ front ≠ some (.link target)

/-- The disk at some time, as far as the process may look at it. `cwd` is what `current_dir`
returns. -/
structure Disk where
  entry : Place → Option Entry
  root : entry [] = some .dir
  cwd : Option Place
  real : ∀ place, cwd = some place → Real entry place

/-- As many links as `realpath` follows. -/
def maxLinks : Nat := 40

/-- `realpath` from a directory on: a component that is missing, or that is a file and not the
last one, is an error. -/
def resolve (entry : Place → Option Entry) (links : Nat) (at_ : Place) (components : List Component) : Option Place :=
  match components with
  | [] => some at_
  | .curDir :: rest => resolve entry links at_ rest
  | .parentDir :: rest => resolve entry links at_.dropLast rest
  | .normal name :: rest =>
    match entry (at_ ++ [name]) with
    | none => none
    | some .dir => resolve entry links (at_ ++ [name]) rest
    | some .file => if rest = [] then some (at_ ++ [name]) else none
    | some (.link target) =>
      match links with
      | 0 => none
      | links + 1 => resolve entry links (if target.absolute then [] else at_) (target.components ++ rest)
termination_by (links,components.length)

def Disk.canonicalize (disk : Disk) (path : RawPath) : Option Place :=
  if path.absolute then resolve disk.entry maxLinks [] path.components
  else disk.cwd.bind fun cwd => resolve disk.entry maxLinks cwd path.components

/-- `current_dir().unwrap_or_else(|_| PathBuf::from("/"))`, or the root. -/
def Disk.base (disk : Disk) (path : RawPath) : Place := if path.absolute then [] else disk.cwd.getD []

def lexical (at_ : Place) (components : List Component) : Place :=
  components.foldl (fun normalized comp => match comp with
    | .curDir => normalized
    | .parentDir => normalized.dropLast
    | .normal name => normalized ++ [name]) at_

def Disk.normalizePath (disk : Disk) (path : RawPath) : Place :=
  match disk.canonicalize path with
  | some canonical => canonical
  | none => lexical (disk.base path) path.components

/-- The same on texts, as the pipeline has its paths. -/
def Disk.normalize (disk : Disk) (path : String) : String := "/" ++ key (disk.normalizePath (parse path))

/-- The path at two times: it led to one place; or it led nowhere at one of them, and at the other
to the place that it spells. -/
def SamePlace (start now : Disk) (path : RawPath) : Prop :=
  match start.canonicalize path, now.canonicalize path with
  | some old, some new => old = new
  | some old, none => old = lexical (now.base path) path.components
  | none, some new => new = lexical (start.base path) path.components
  | none, none => lexical (start.base path) path.components = lexical (now.base path) path.components

/-- The path leads somewhere, and through no link. -/
def Disk.Straight (disk : Disk) (path : RawPath) : Prop :=
  (resolve disk.entry 0 (disk.base path) path.components).isSome = true ∧ (path.absolute = true ∨ disk.cwd.isSome = true)

theorem normalizePath_eq_iff (start now : Disk) (path : RawPath) :
    start.normalizePath path = now.normalizePath path ↔ SamePlace start now path := by
  unfold Disk.normalizePath SamePlace
  cases start.canonicalize path with
  | some old => cases now.canonicalize path <;> rfl
  | none =>
    cases now.canonicalize path with
    | some new => exact eq_comm
    | none => rfl

theorem normalize_eq_iff (start now : Disk) (path : String) :
    now.normalize path = start.normalize path ↔ SamePlace start now (parse path) := by
  have injective : Function.Injective fun place => "/" ++ key place := by
    intro p q same
    exact key_injective (String.toList_inj.mp (by simpa using congrArg String.toList same))
  rw [← normalizePath_eq_iff,eq_comm]
  exact injective.eq_iff

section Links

variable {entry : Place → Option Entry}

theorem Real.dropLast (real : Real entry place) : Real entry place.dropLast :=
  fun front before => real front (before.trans (List.dropLast_prefix place))

theorem Real.snoc (real : Real entry place) (plain : ∀ target, entry (place ++ [name]) ≠ some (.link target)) :
    Real entry (place ++ [name]) := by
  intro front before
  rcases List.prefix_concat_iff.mp before with rfl | shorter
  · exact plain
  · exact real front shorter

/-- What is resolved has no link in it any more. -/
theorem resolve_real (root : entry [] = some .dir) (real : Real entry at_)
    (found : resolve entry links at_ components = some place) : Real entry place := by
  have empty : Real entry [] := by
    intro front before target
    rw [List.prefix_nil.mp before,root]
    simp
  fun_induction resolve entry links at_ components with
  | case1 => exact Option.some.inj found ▸ real
  | case2 links at_ rest ih => exact ih real found
  | case3 links at_ rest ih => exact ih real.dropLast found
  | case4 => contradiction
  | case5 links at_ name rest isDir ih => exact ih (real.snoc (by simp [isDir])) found
  | case6 links at_ name isFile => exact Option.some.inj found ▸ real.snoc (by simp [isFile])
  | case7 => contradiction
  | case8 => contradiction
  | case9 at_ name rest target isLink links ih =>
    apply ih _ found
    split
    · exact empty
    · exact real

/-- Without links, a path leads to the place that it spells. -/
theorem resolve_straight (found : resolve entry 0 at_ components = some place) : place = lexical at_ components := by
  induction components generalizing at_ with
  | nil =>
    rw [resolve] at found
    exact (Option.some.inj found).symm
  | cons comp rest ih =>
    cases comp with
    | curDir =>
      rw [resolve] at found
      exact ih found
    | parentDir =>
      rw [resolve] at found
      exact ih found
    | normal name =>
      rw [resolve] at found
      split at found
      next => contradiction
      next => exact ih found
      next =>
        obtain ⟨rfl,same⟩ := Option.ite_none_right_eq_some.mp found
        exact (Option.some.inj same).symm
      next => contradiction

theorem resolve_more (found : resolve entry 0 at_ components = some place) (links : Nat) :
    resolve entry links at_ components = some place := by
  induction components generalizing at_ with
  | nil =>
    rw [resolve] at found ⊢
    exact found
  | cons comp rest ih =>
    cases comp with
    | curDir =>
      rw [resolve] at found ⊢
      exact ih found
    | parentDir =>
      rw [resolve] at found ⊢
      exact ih found
    | normal name =>
      rw [resolve] at found ⊢
      split at found
      next => contradiction
      next => exact ih found
      next => exact found
      next => contradiction

theorem prefix_lexical (forward : .parentDir ∉ components) : at_ <+: lexical at_ components := by
  induction components generalizing at_ with
  | nil => exact List.prefix_refl _
  | cons comp rest ih =>
    obtain ⟨other,later⟩ := not_or.mp (List.mem_cons.not.mp forward)
    cases comp with
    | curDir => exact ih later
    | parentDir => exact absurd rfl other
    | normal name => exact (List.prefix_append _ _).trans (ih later)

/-- A path without `..` that leads to the place that it spells goes through no link. -/
theorem straight_of_lexical (root : entry [] = some .dir) (real : Real entry at_) (forward : .parentDir ∉ components)
    (found : resolve entry links at_ components = some (lexical at_ components)) :
    resolve entry 0 at_ components = some (lexical at_ components) := by
  induction components generalizing at_ with
  | nil =>
    rw [resolve]
    rfl
  | cons comp rest ih =>
    have whole := resolve_real root real found
    obtain ⟨other,later⟩ := not_or.mp (List.mem_cons.not.mp forward)
    cases comp with
    | curDir =>
      rw [resolve] at found ⊢
      exact ih real later found
    | parentDir => exact absurd rfl other
    | normal name =>
      have inside : at_ ++ [name] <+: lexical at_ (.normal name :: rest) := prefix_lexical later
      have plain := whole _ inside
      rw [resolve] at found ⊢
      split at found
      next => contradiction
      next isDir => exact ih (real.snoc plain) later found
      next => exact found
      next target isLink => exact absurd isLink (plain target)

end Links

theorem canonicalize_eq_some (disk : Disk) (path : RawPath) (exists_ : disk.canonicalize path = some place) :
    resolve disk.entry maxLinks (disk.base path) path.components = some place ∧ Real disk.entry (disk.base path) ∧
      (path.absolute = true ∨ disk.cwd.isSome = true) := by
  unfold Disk.canonicalize at exists_
  unfold Disk.base
  by_cases absolute : path.absolute = true
  · rw [if_pos absolute] at exists_ ⊢
    refine ⟨exists_,?_,.inl absolute⟩
    intro front before target
    rw [List.prefix_nil.mp before,disk.root]
    simp
  · rw [if_neg absolute] at exists_ ⊢
    obtain ⟨cwd,known,found⟩ := Option.bind_eq_some_iff.mp exists_
    rw [known,Option.getD_some]
    exact ⟨found,disk.real cwd known,.inr rfl⟩

/-- For a path without `..`, to lead where it says is to go through no link. -/
theorem straight_iff (disk : Disk) (path : RawPath) (forward : .parentDir ∉ path.components)
    (exists_ : disk.canonicalize path = some place) :
    place = lexical (disk.base path) path.components ↔ disk.Straight path := by
  obtain ⟨found,real,based⟩ := canonicalize_eq_some disk path exists_
  constructor
  · rintro rfl
    refine ⟨?_,based⟩
    rw [straight_of_lexical disk.root real forward found]
    rfl
  · rintro ⟨straight,_⟩
    obtain ⟨other,direct⟩ := Option.isSome_iff_exists.mp straight
    have same := resolve_more direct maxLinks
    rw [found] at same
    rw [Option.some.inj same]
    exact resolve_straight direct

/-- The command is recognised in every trigger that names it exactly if it leads to the place that
it led to at start-up; or, where it led nowhere at one of the two times, to the place that it
spells. For a command without `..` this is to be reached through no link, at the one time that it
leads somewhere; and a command that leads nowhere at either time is recognised. -/
theorem binary_recognised_iff (start now : Disk) (command : String) (cfg : Pipeline.Config)
    (stored : cfg.binaryPath = some (start.normalize command)) :
    ((∀ paths, command ∈ paths → Pipeline.binaryChanged cfg now.normalize (.files paths) = true) ↔
      SamePlace start now (parse command)) ∧
    (start.cwd = now.cwd → .parentDir ∉ (parse command).components → start.canonicalize (parse command) = none →
      (now.canonicalize (parse command)).isSome = true →
      (SamePlace start now (parse command) ↔ now.Straight (parse command))) ∧
    (start.cwd = now.cwd → .parentDir ∉ (parse command).components → (start.canonicalize (parse command)).isSome = true →
      now.canonicalize (parse command) = none →
      (SamePlace start now (parse command) ↔ start.Straight (parse command))) ∧
    (start.cwd = now.cwd → start.canonicalize (parse command) = none → now.canonicalize (parse command) = none →
      SamePlace start now (parse command)) := by
  have base (cwd : start.cwd = now.cwd) : start.base (parse command) = now.base (parse command) := by
    unfold Disk.base
    rw [cwd]
  refine ⟨?_,?_,?_,?_⟩
  · rw [← normalize_eq_iff]
    constructor
    · intro recognised
      have alone := recognised [command] (List.mem_singleton_self _)
      simpa [Pipeline.binaryChanged,stored] using alone
    · intro same paths member
      simp only [Pipeline.binaryChanged,stored,Option.any_some,List.any_eq_true,beq_iff_eq]
      exact ⟨command,member,same⟩
  · intro cwd forward missing exists_
    obtain ⟨place,found⟩ := Option.isSome_iff_exists.mp exists_
    rw [← straight_iff now (parse command) forward found]
    simp only [SamePlace,missing,found,base cwd]
  · intro cwd forward exists_ missing
    obtain ⟨place,found⟩ := Option.isSome_iff_exists.mp exists_
    rw [← straight_iff start (parse command) forward found]
    simp only [SamePlace,missing,found,base cwd]
  · intro cwd missing gone
    simp only [SamePlace,missing,gone,base cwd]

section Deploy

def srv : Name := ⟨"srv".toList,by decide,by decide⟩
def current : Name := ⟨"current".toList,by decide,by decide⟩
def v1 : Name := ⟨"v1".toList,by decide,by decide⟩
def v2 : Name := ⟨"v2".toList,by decide,by decide⟩
def svc : Name := ⟨"svc".toList,by decide,by decide⟩

def releases (live : Name) : Disk where
  entry place :=
    if place = [] ∨ place = [srv] ∨ place = [srv,v1] ∨ place = [srv,v2] then some .dir
    else if place = [srv,v1,svc] ∨ place = [srv,v2,svc] then some .file
    else if place = [srv,current] then some (.link ⟨false,[.normal live]⟩)
    else none
  root := rfl
  cwd := none
  real _ none_ := by simp at none_

def service (start : Disk) (command : String) : Pipeline.Config where
  stages := []
  install := none
  watch := [command]
  watchRemote := none
  pauseFile := none
  buildLock := none
  binaryPath := some (start.normalize command)
  podCount := 1

theorem parse_release : parse "/srv/v1/svc" = ⟨true,[.curDir,.normal srv,.normal v1,.normal svc]⟩ := by decide

theorem parse_current : parse "/srv/current/svc" = ⟨true,[.curDir,.normal srv,.normal current,.normal svc]⟩ := by decide

theorem resolve_release (live version : Name) (released : version = v1 ∨ version = v2) (links : Nat) :
    resolve (releases live).entry links [] [.curDir,.normal srv,.normal version,.normal svc] = some [srv,version,svc] := by
  have folder : (releases live).entry [srv,version] = some .dir := by
    rcases released with rfl | rfl <;> rfl
  have binary : (releases live).entry [srv,version,svc] = some .file := by
    rcases released with rfl | rfl <;> rfl
  have top : (releases live).entry [srv] = some .dir := rfl
  simp [resolve,top,folder,binary]

theorem canonicalize_current (live : Name) (released : live = v1 ∨ live = v2) :
    (releases live).canonicalize (parse "/srv/current/svc") = some [srv,live,svc] := by
  have top : (releases live).entry [srv] = some .dir := rfl
  have linked : (releases live).entry [srv,current] = some (.link ⟨false,[.normal live]⟩) := rfl
  have direct := resolve_release live live released 39
  rw [parse_current]
  simp only [Disk.canonicalize,maxLinks,resolve,top,linked,List.nil_append,List.cons_append] at direct ⊢
  exact direct

/-- A command that names its release is recognised whatever the link does. -/
theorem release_recognised : Pipeline.binaryChanged (service (releases v1) "/srv/v1/svc") (releases v2).normalize
    (.files ["/srv/current","/srv/v1/svc"]) = true := by
  refine ((binary_recognised_iff (releases v1) (releases v2) "/srv/v1/svc" (service (releases v1) "/srv/v1/svc") rfl).1.mpr
    ?_) _ (by simp)
  have there (live : Name) : (releases live).canonicalize (parse "/srv/v1/svc") = some [srv,v1,svc] := by
    rw [parse_release]
    exact resolve_release live v1 (.inl rfl) maxLinks
  simp only [SamePlace,there]

/-- The deploy link is pointed to the next release: the command is the same, and it is no longer
recognised. -/
theorem repointed_unrecognised : ¬ ∀ (start now : Disk) (command : String) (cfg : Pipeline.Config),
    cfg.binaryPath = some (start.normalize command) → ∀ paths, command ∈ paths →
      Pipeline.binaryChanged cfg now.normalize (.files paths) = true := by
  intro holds
  have recognised := holds (releases v1) (releases v2) "/srv/current/svc" (service (releases v1) "/srv/current/svc") rfl
    ["/srv/current/svc"] (List.mem_singleton_self _)
  have same : (releases v2).normalize "/srv/current/svc" = (releases v1).normalize "/srv/current/svc" := by
    simpa [Pipeline.binaryChanged,service] using recognised
  rw [normalize_eq_iff] at same
  have old := canonicalize_current v1 (.inl rfl)
  have new := canonicalize_current v2 (.inr rfl)
  simp only [SamePlace,old,new] at same
  exact absurd same (by decide)

end Deploy

end Malkuth.BinaryPath
