import Malkuth.Pipeline

/-! What the pipeline can see of a build: `snapshot_mtimes` walks the watched paths before and
after it, and `mtimes_changed` compares the two maps. -/
namespace Malkuth.BuildDiff

open Pipeline

structure Name where
  text : List Char
  some_ : text ≠ []
  plain : '/' ∉ text
  deriving DecidableEq

abbrev Path := List Name

/-- A file system as a process sees it through its paths. A symbolic link to a directory is that
directory here, since `is_dir` and `read_dir` follow it; how often they do is bounded, so there is
an end to every tree. Any other link, a pipe, a socket or a device is `other`, with its own time
of modification. A directory can be listed if it is readable, and what is in it can be looked at
if it is searchable. -/
inductive Node where
  | file (mtime : Int)
  | other (mtime : Int)
  | dir (readable searchable : Bool) (entries : List (Name × Node))

def Node.isDir : Node → Bool
  | .dir .. => true
  | _ => false

def Node.entries : Node → List (Name × Node)
  | .dir _ _ entries => entries
  | _ => []

/-- The entries of `read_dir` that can be looked at. -/
def Node.listing : Node → List (Name × Node)
  | .dir true true entries => entries
  | _ => []

/-- `entry.metadata()?.modified()`, where the entry is no directory. -/
def Node.mtime : Node → Option Int
  | .file mtime | .other mtime => some mtime
  | .dir .. => none

def Node.find : Node → Path → Option Node
  | node, [] => some node
  | .dir _ true entries, name :: path => (entries.lookup name).bind fun entry => entry.find path
  | _, _ :: _ => none

def key (path : Path) : String := String.ofList (['/'].intercalate (path.map Name.text))

def subdirs (path : Path) (node : Node) : List (Path × Node) :=
  (node.listing.filter fun e => e.2.isDir).map fun e => (path ++ [e.1],e.2)

def files (path : Path) (node : Node) : List (Path × Int) :=
  node.listing.filterMap fun e => e.2.mtime.map fun mtime => (path ++ [e.1],mtime)

def insertAll (found : List (Path × Int)) (map : Mtimes) : Mtimes :=
  found.foldl (fun map e => map.insert (key e.1) e.2) map

theorem sizeOf_subdirs (path : Path) (node : Node) :
    ((subdirs path node).map fun e => sizeOf e.2).sum < sizeOf node := by
  have entries (l : List (Name × Node)) :
      (((l.filter fun e => e.2.isDir).map fun e => (path ++ [e.1],e.2)).map fun e => sizeOf e.2).sum ≤ sizeOf l := by
    induction l with
    | nil => simp
    | cons e l ih =>
      obtain ⟨name,node⟩ := e
      rw [List.filter_cons]
      split
      · simp only [List.map_cons,List.sum_cons,List.cons.sizeOf_spec,Prod.mk.sizeOf_spec]
        omega
      · simp only [List.cons.sizeOf_spec]
        omega
  unfold subdirs Node.listing
  split
  next l =>
    have := entries l
    simp only [Node.dir.sizeOf_spec]
    omega
  next =>
    simp only [List.filter_nil,List.map_nil,List.sum_nil]
    cases node <;> simp only [Node.file.sizeOf_spec,Node.other.sizeOf_spec,Node.dir.sizeOf_spec] <;> omega

/-- The loop over the stack; what `pop` takes off it is in front. -/
def walk (stack : List (Path × Node)) (map : Mtimes) : Mtimes :=
  match stack with
  | [] => map
  | (path,node) :: stack => walk ((subdirs path node).reverse ++ stack) (insertAll (files path node) map)
termination_by (stack.map fun e => sizeOf e.2).sum
decreasing_by
  have less := sizeOf_subdirs path node
  simp only [List.map_append,List.map_reverse,List.sum_append,List.sum_reverse,List.map_cons,List.sum_cons]
  omega

/-- A root that does not exist is skipped. -/
def snapshotMtimes (fs : Node) (roots : List Path) : Mtimes :=
  roots.foldl (fun map root => match fs.find root with
    | some node => walk [(root,node)] map
    | none => map) ∅

section Maps

/-- The two maps differ somewhere. -/
theorem mtimesChanged_iff (before after : Mtimes) :
    mtimesChanged before after = true ↔ ∃ k, before.lookup k ≠ after.lookup k := by
  unfold mtimesChanged
  rw [Bool.or_eq_true,bne_iff_ne,List.any_eq_true]
  constructor
  · rintro (lengths | ⟨e,member,differs⟩)
    · by_contra same
      push Not at same
      have perm : before.entries.Perm after.entries := by
        apply List.lookup_ext before.nodupKeys after.nodupKeys
        intro k m
        have equal : before.entries.dlookup k = after.entries.dlookup k := same k
        rw [equal]
      exact lengths perm.length_eq
    · refine ⟨e.1,?_⟩
      rw [show before.lookup e.1 = some e.2 from AList.mem_lookup_iff.mpr member]
      exact (bne_iff_ne.mp differs).symm
  · rintro ⟨k,differs⟩
    by_contra same
    push Not at same
    obtain ⟨lengths,all⟩ := same
    have sub : before.entries ⊆ after.entries := by
      intro e member
      have equal := all e member
      exact AList.mem_lookup_iff.mp (by simpa using equal)
    have perm : before.entries.Perm after.entries :=
      (List.subperm_of_subset before.nodupKeys.nodup sub).perm_of_length_le (Nat.le_of_eq lengths.symm)
    exact differs (AList.perm_lookup perm)

theorem lookup_insertAll (found : List (Path × Int)) (map : Mtimes)
    (there : (insertAll found map).lookup k = some m) :
    map.lookup k = some m ∨ ∃ e ∈ found, key e.1 = k ∧ e.2 = m := by
  unfold insertAll at there
  induction found generalizing map with
  | nil => exact .inl there
  | cons e found ih =>
    rcases ih _ there with old | ⟨f,member,same⟩
    · by_cases here : k = key e.1
      · subst here
        rw [AList.lookup_insert] at old
        exact .inr ⟨e,List.mem_cons_self,rfl,Option.some.inj old⟩
      · rw [AList.lookup_insert_ne here] at old
        exact .inl old
    · exact .inr ⟨f,List.mem_cons_of_mem _ member,same⟩

theorem mem_insertAll (found : List (Path × Int)) (map : Mtimes) (there : k ∈ map ∨ ∃ e ∈ found, key e.1 = k) :
    k ∈ insertAll found map := by
  unfold insertAll
  induction found generalizing map with
  | nil => simpa using there
  | cons e found ih =>
    apply ih
    rcases there with old | ⟨f,member,same⟩
    · exact .inl ((AList.mem_insert _).mpr (.inr old))
    · rcases List.mem_cons.mp member with rfl | later
      · exact .inl ((AList.mem_insert _).mpr (.inl same.symm))
      · exact .inr ⟨f,later,same⟩

/-- Paths are told apart by their keys. -/
theorem key_injective : Function.Injective key := by
  intro p q same
  have texts : ['/'].intercalate (p.map Name.text) = ['/'].intercalate (q.map Name.text) := by
    simpa [key] using congrArg String.toList same
  have plain (path : Path) : ∀ l ∈ path.map Name.text, '/' ∉ l := by
    intro l member
    obtain ⟨name,_,rfl⟩ := List.mem_map.mp member
    exact name.plain
  have empty (path : Path) (none_ : ['/'].intercalate (path.map Name.text) = []) : path = [] := by
    cases path with
    | nil => rfl
    | cons name path =>
      cases path with
      | nil => exact absurd (by simpa using none_) name.some_
      | cons next path => simp [List.intercalate_cons_cons] at none_
  have injective : Function.Injective Name.text := by
    rintro ⟨a,_,_⟩ ⟨b,_,_⟩ rfl
    rfl
  by_cases none_ : p = []
  · subst none_
    exact (empty q texts.symm).symm
  · by_cases none' : q = []
    · subst none'
      exact empty p texts
    · have parts := congrArg (List.splitOn '/') texts
      rw [List.splitOn_intercalate '/' (plain p) (by simpa using none_),
        List.splitOn_intercalate '/' (plain q) (by simpa using none')] at parts
      exact List.map_injective_iff.mpr injective parts

end Maps

section Walk

/-- A path under a directory that the walk of the directory comes to, and puts into the map. -/
def Shown : Node → Path → Int → Prop
  | _, [], _ => False
  | node, name :: path, m => ∃ entry, (name,entry) ∈ node.listing ∧
      (path = [] ∧ entry.mtime = some m ∨ entry.isDir = true ∧ Shown entry path m)

theorem mem_files : (path,m) ∈ files dir node ↔
    ∃ name entry, (name,entry) ∈ node.listing ∧ entry.mtime = some m ∧ path = dir ++ [name] := by
  unfold files
  rw [List.mem_filterMap]
  constructor
  · rintro ⟨⟨name,entry⟩,member,found⟩
    obtain ⟨m',time,same⟩ := Option.map_eq_some_iff.mp found
    obtain ⟨rfl,rfl⟩ := Prod.mk.inj same
    exact ⟨name,entry,member,time,rfl⟩
  · rintro ⟨name,entry,member,time,rfl⟩
    exact ⟨(name,entry),member,by simp [time]⟩

theorem mem_subdirs : (path,entry) ∈ subdirs dir node ↔
    ∃ name, (name,entry) ∈ node.listing ∧ entry.isDir = true ∧ path = dir ++ [name] := by
  unfold subdirs
  simp only [List.mem_map,List.mem_filter,Prod.mk.injEq,Prod.exists]
  constructor
  · rintro ⟨name,entry,⟨member,isDir⟩,rfl,rfl⟩
    exact ⟨name,member,isDir,rfl⟩
  · rintro ⟨name,member,isDir,rfl⟩
    exact ⟨name,entry,⟨member,isDir⟩,rfl,rfl⟩

/-- Every entry of the map was there, or is shown by what was on the stack. -/
theorem walk_sound (good : String → Int → Prop) (stack : List (Path × Node)) (map : Mtimes)
    (old : ∀ k m, map.lookup k = some m → good k m)
    (new : ∀ e ∈ stack, ∀ path m, Shown e.2 path m → good (key (e.1 ++ path)) m) :
    ∀ k m, (walk stack map).lookup k = some m → good k m := by
  fun_induction walk stack map with
  | case1 map => exact old
  | case2 map dir node stack ih =>
    apply ih
    · intro k m there
      rcases lookup_insertAll _ _ there with before | ⟨⟨path,m'⟩,member,rfl,rfl⟩
      · exact old k m before
      · obtain ⟨name,entry,listed,time,rfl⟩ := mem_files.mp member
        exact new (dir,node) List.mem_cons_self [name] m' ⟨entry,listed,.inl ⟨rfl,time⟩⟩
    · rintro ⟨path,entry⟩ member rest m shown
      rcases List.mem_append.mp member with sub | below
      · obtain ⟨name,listed,isDir,rfl⟩ := mem_subdirs.mp (List.mem_reverse.mp sub)
        have through := new (dir,node) List.mem_cons_self (name :: rest) m ⟨entry,listed,.inr ⟨isDir,shown⟩⟩
        simpa using through
      · exact new (path,entry) (List.mem_cons_of_mem _ below) rest m shown

/-- And nothing that is shown is left out. -/
theorem walk_complete (stack : List (Path × Node)) (map : Mtimes)
    (there : k ∈ map ∨ ∃ e ∈ stack, ∃ path m, Shown e.2 path m ∧ k = key (e.1 ++ path)) : k ∈ walk stack map := by
  fun_induction walk stack map with
  | case1 map => simpa using there
  | case2 map dir node stack ih =>
    apply ih
    rcases there with old | ⟨⟨path,entry⟩,member,rest,m,shown,rfl⟩
    · exact .inl (mem_insertAll _ _ (.inl old))
    · rcases List.mem_cons.mp member with first | below
      · obtain ⟨rfl,rfl⟩ := Prod.mk.inj first
        cases rest with
        | nil => exact absurd shown id
        | cons name rest =>
          obtain ⟨sub,listed,⟨rfl,time⟩ | ⟨isDir,shown⟩⟩ := shown
          · exact .inl (mem_insertAll _ _ (.inr ⟨(path ++ [name],m),mem_files.mpr ⟨name,sub,listed,time,rfl⟩,rfl⟩))
          · refine .inr ⟨(path ++ [name],sub),?_,rest,m,shown,by simp⟩
            exact List.mem_append_left _ (List.mem_reverse.mpr (mem_subdirs.mpr ⟨name,listed,isDir,rfl⟩))
      · exact .inr ⟨(path,entry),List.mem_append_right _ below,rest,m,shown,rfl⟩

end Walk

section Trees

/-- What is at a path, whether this process can look at it or not. -/
def Node.At : Node → Path → Node → Prop
  | node, [], at_ => at_ = node
  | node, name :: path, at_ => ∃ entry, (name,entry) ∈ node.entries ∧ entry.At path at_

structure FileSystem where
  root : Node
  distinct : ∀ path node, root.At path node → (node.entries.map Prod.fst).Nodup

theorem at_append (node : Node) (front back : Path) :
    node.At (front ++ back) at_ ↔ ∃ between, node.At front between ∧ between.At back at_ := by
  induction front generalizing node with
  | nil => simp [Node.At]
  | cons name front ih =>
    simp only [List.cons_append,Node.At,ih]
    constructor
    · rintro ⟨entry,member,between,first,second⟩
      exact ⟨between,⟨entry,member,first⟩,second⟩
    · rintro ⟨between,⟨entry,member,first⟩,second⟩
      exact ⟨entry,member,between,first,second⟩

theorem eq_of_nodup_keys {l : List (Name × Node)} (nodup : (l.map Prod.fst).Nodup) (first : (name,a) ∈ l)
    (second : (name,b) ∈ l) : a = b := by
  have same : (name,a) = (name,b) := List.inj_on_of_nodup_map nodup first second rfl
  exact (Prod.mk.inj same).2

/-- There is one thing at a path. -/
theorem at_unique (node : Node) (distinct : ∀ path at_, node.At path at_ → (at_.entries.map Prod.fst).Nodup)
    (path : Path) (first : node.At path a) (second : node.At path b) : a = b := by
  induction path generalizing node with
  | nil => exact Eq.trans first second.symm
  | cons name path ih =>
    obtain ⟨e,inE,first⟩ := first
    obtain ⟨f,inF,second⟩ := second
    obtain rfl := eq_of_nodup_keys (distinct [] node rfl) inE inF
    apply ih e _ first second
    intro path at_ here
    exact distinct (name :: path) at_ ⟨e,inE,here⟩

theorem listing_subset (node : Node) : node.listing ⊆ node.entries := by
  unfold Node.listing
  split
  · exact List.Subset.refl _
  · exact List.nil_subset _

theorem proper_cons {P : Path → Prop} (name : Name) (path : Path) :
    (∀ front, front <+: name :: path → front ≠ name :: path → P front) ↔
      P [] ∧ ∀ front, front <+: path → front ≠ path → P (name :: front) := by
  constructor
  · intro all
    refine ⟨all [] (List.nil_prefix) (List.cons_ne_nil _ _).symm,fun front before other => ?_⟩
    exact all _ (List.cons_prefix_cons.mpr ⟨rfl,before⟩) fun same => other (List.cons.inj same).2
  · rintro ⟨first,later⟩ front before other
    cases front with
    | nil => exact first
    | cons other_ front =>
      obtain ⟨rfl,below⟩ := List.cons_prefix_cons.mp before
      exact later front below fun same => other (by rw [same])

variable {node : Node} (distinct : ∀ path at_, node.At path at_ → (at_.entries.map Prod.fst).Nodup)

include distinct

theorem lookup_iff : node.entries.lookup name = some entry ↔ (name,entry) ∈ node.entries := by
  constructor
  · intro here
    obtain ⟨front,back,eq,_⟩ := List.lookup_eq_some_iff.mp here
    simp [eq]
  · intro member
    obtain ⟨other,there⟩ := Option.isSome_iff_exists.mp
      (List.lookup_isSome_iff.mpr ⟨(name,entry),member,beq_self_eq_true name⟩)
    obtain ⟨front,back,eq,_⟩ := List.lookup_eq_some_iff.mp there
    have inside : (name,other) ∈ node.entries := by simp [eq]
    rw [there,eq_of_nodup_keys (distinct [] node rfl) member inside]

/-- One entry of a name leads on. -/
theorem at_cons (member : (name,entry) ∈ node.entries) : node.At (name :: path) at_ ↔ entry.At path at_ := by
  constructor
  · rintro ⟨other,inside,here⟩
    rwa [eq_of_nodup_keys (distinct [] node rfl) member inside]
  · exact fun here => ⟨entry,member,here⟩

theorem distinct_entry (member : (name,entry) ∈ node.entries) (path : Path) (at_ : Node) (here : entry.At path at_) :
    (at_.entries.map Prod.fst).Nodup :=
  distinct (name :: path) at_ ⟨entry,member,here⟩

/-- A path leads somewhere if every directory above is searchable. -/
theorem find_iff : node.find path = some at_ ↔ node.At path at_ ∧
    ∀ front, front <+: path → front ≠ path → ∃ readable entries, node.At front (.dir readable true entries) := by
  induction path generalizing node with
  | nil =>
    constructor
    · intro found
      refine ⟨(Option.some.inj found).symm,fun front before other => absurd (List.prefix_nil.mp before) other⟩
    · rintro ⟨here,_⟩
      exact congrArg some (Eq.symm here)
  | cons name path ih =>
    rw [proper_cons]
    constructor
    · intro found
      unfold Node.find at found
      split at found
      next => contradiction
      next readable entries _ _ eq =>
        obtain ⟨rfl,rfl⟩ := List.cons.inj eq
        obtain ⟨entry,here,rest⟩ := Option.bind_eq_some_iff.mp found
        have member := (lookup_iff distinct).mp here
        obtain ⟨there,above⟩ := (ih (distinct_entry distinct member)).mp rest
        refine ⟨⟨entry,member,there⟩,⟨readable,entries,rfl⟩,fun front before other => ?_⟩
        obtain ⟨readable,entries,dir⟩ := above front before other
        exact ⟨readable,entries,entry,member,dir⟩
      next => contradiction
    · rintro ⟨⟨entry,member,there⟩,⟨readable,entries,isDir⟩,above⟩
      obtain rfl : .dir readable true entries = node := isDir
      have found : entries.lookup name = some entry := (lookup_iff distinct).mpr member
      rw [Node.find,found,Option.bind_some,ih (distinct_entry distinct member)]
      refine ⟨there,fun front before other => ?_⟩
      obtain ⟨readable,entries,dir⟩ := above front before other
      exact ⟨readable,entries,(at_cons distinct member).mp dir⟩

/-- A path under a directory is shown if every directory above is readable too. -/
theorem shown_iff : Shown node path m ↔ path ≠ [] ∧ (∃ at_, node.At path at_ ∧ at_.mtime = some m) ∧
    ∀ front, front <+: path → front ≠ path → ∃ entries, node.At front (.dir true true entries) := by
  induction path generalizing node with
  | nil => exact iff_of_false id fun here => here.1 rfl
  | cons name path ih =>
    rw [proper_cons]
    constructor
    · rintro ⟨entry,listed,rest⟩
      have member := listing_subset node listed
      have isDir : ∃ entries, node.At [] (.dir true true entries) := by
        unfold Node.listing at listed
        split at listed
        next entries => exact ⟨entries,rfl⟩
        next => simp at listed
      refine ⟨List.cons_ne_nil _ _,?_,isDir,?_⟩
      · rcases rest with ⟨rfl,time⟩ | ⟨_,shown⟩
        · exact ⟨entry,⟨entry,member,rfl⟩,time⟩
        · obtain ⟨_,⟨at_,here,time⟩,_⟩ := (ih (distinct_entry distinct member)).mp shown
          exact ⟨at_,⟨entry,member,here⟩,time⟩
      · intro front before other
        rcases rest with ⟨rfl,_⟩ | ⟨_,shown⟩
        · exact absurd (List.prefix_nil.mp before) other
        · obtain ⟨_,_,above⟩ := (ih (distinct_entry distinct member)).mp shown
          obtain ⟨entries,dir⟩ := above front before other
          exact ⟨entries,entry,member,dir⟩
    · rintro ⟨_,⟨at_,⟨entry,member,here⟩,time⟩,⟨entries,isDir⟩,above⟩
      obtain rfl : .dir true true entries = node := isDir
      refine ⟨entry,member,?_⟩
      by_cases last : path = []
      · subst last
        obtain rfl : at_ = entry := here
        exact .inl ⟨rfl,time⟩
      · have inner (front : Path) (before : front <+: path) (other : front ≠ path) :
            ∃ entries, entry.At front (.dir true true entries) := by
          obtain ⟨entries,dir⟩ := above front before other
          exact ⟨entries,(at_cons distinct member).mp dir⟩
        obtain ⟨inside,dir⟩ := inner [] List.nil_prefix (Ne.symm last)
        obtain rfl : .dir true true inside = entry := dir
        exact .inr ⟨rfl,(ih (distinct_entry distinct member)).mpr ⟨last,⟨at_,here,time⟩,inner⟩⟩

end Trees

/-- An entry that the snapshot has. -/
def Shows (fs : FileSystem) (roots : List Path) (path : Path) (m : Int) : Prop :=
  ∃ root ∈ roots, ∃ node rest, fs.root.find root = some node ∧ path = root ++ rest ∧ Shown node rest m

/-- The walk comes to the path: a watched path is above it, every directory on the way is
searchable, and those from the watched one on are readable. -/
def Reached (fs : FileSystem) (roots : List Path) (path : Path) : Prop :=
  ∃ root ∈ roots, root <+: path ∧ root ≠ path ∧ ∀ front, front <+: path → front ≠ path →
    ∃ readable entries, fs.root.At front (.dir readable true entries) ∧ (root <+: front → readable = true)

/-- What the walk comes to, if it has a time. -/
def Seen (fs : FileSystem) (roots : List Path) (path : Path) (m : Int) : Prop :=
  Reached fs roots path ∧ (fs.root.At path (.file m) ∨ fs.root.At path (.other m))

def Hidden (fs : FileSystem) (roots : List Path) (path : Path) : Prop :=
  Reached fs roots path → ∀ node, fs.root.At path node → node.isDir = true

/-- A regular file that is a watched path, or under one. -/
def WatchedFile (fs : FileSystem) (roots : List Path) (path : Path) (m : Int) : Prop :=
  ∃ root ∈ roots, root <+: path ∧ fs.root.At path (.file m)

theorem mtime_iff {node : Node} : node.mtime = some m ↔ node = .file m ∨ node = .other m := by
  cases node <;> simp [Node.mtime]

theorem shows_iff (fs : FileSystem) (roots : List Path) (path : Path) (m : Int) :
    Shows fs roots path m ↔ Seen fs roots path m := by
  have timed : (fs.root.At path (.file m) ∨ fs.root.At path (.other m)) ↔ ∃ at_, fs.root.At path at_ ∧ at_.mtime = some m := by
    simp only [mtime_iff]
    constructor
    · rintro (here | here)
      · exact ⟨_,here,.inl rfl⟩
      · exact ⟨_,here,.inr rfl⟩
    · rintro ⟨_,here,rfl | rfl⟩
      · exact .inl here
      · exact .inr here
  unfold Seen
  rw [timed]
  constructor
  · rintro ⟨root,member,node,rest,found,rfl,shown⟩
    obtain ⟨above,searched⟩ := (find_iff fs.distinct).mp found
    have inner (path at_) (here : node.At path at_) := fs.distinct (root ++ path) at_ ((at_append ..).mpr ⟨node,above,here⟩)
    obtain ⟨some_,⟨at_,here,time⟩,listed⟩ := (shown_iff inner).mp shown
    refine ⟨⟨root,member,List.prefix_append _ _,fun same => some_ (by simpa using same),?_⟩,
      at_,(at_append ..).mpr ⟨node,above,here⟩,time⟩
    intro front before other
    by_cases inside : root <+: front
    · obtain ⟨rest',rfl⟩ := inside
      obtain ⟨entries,dir⟩ := listed rest' ((List.prefix_append_right_inj root).mp before) fun same => other (by rw [same])
      exact ⟨true,entries,(at_append ..).mpr ⟨node,above,dir⟩,fun _ => rfl⟩
    · have higher := (List.prefix_or_prefix_of_prefix before (List.prefix_append root rest)).resolve_right inside
      obtain ⟨readable,entries,dir⟩ := searched front higher fun same => inside (same ▸ List.prefix_refl _)
      exact ⟨readable,entries,dir,fun lower => absurd lower inside⟩
  · rintro ⟨⟨root,member,⟨rest,rfl⟩,other,way⟩,at_,here,time⟩
    obtain ⟨node,above,below⟩ := (at_append ..).mp here
    have inner (path at_) (here : node.At path at_) := fs.distinct (root ++ path) at_ ((at_append ..).mpr ⟨node,above,here⟩)
    have some_ : rest ≠ [] := fun none_ => other (by simp [none_])
    refine ⟨root,member,node,rest,(find_iff fs.distinct).mpr ⟨above,?_⟩,rfl,(shown_iff inner).mpr ⟨some_,⟨at_,below,time⟩,?_⟩⟩
    · intro front before lower
      have shorter : front ≠ root ++ rest := by
        rintro rfl
        have lengths := before.length_le
        rw [List.length_append] at lengths
        exact some_ (List.length_eq_zero_iff.mp (by omega))
      obtain ⟨readable,entries,dir,_⟩ := way front (before.trans (List.prefix_append _ _)) shorter
      exact ⟨readable,entries,dir⟩
    · intro front before lower
      obtain ⟨readable,entries,dir,listed⟩ := way (root ++ front) ((List.prefix_append_right_inj root).mpr before)
        fun same => lower (List.append_cancel_left same)
      obtain ⟨between,above',dir⟩ := (at_append ..).mp dir
      obtain rfl := at_unique fs.root fs.distinct root above above'
      obtain rfl := listed (List.prefix_append _ _)
      exact ⟨entries,dir⟩

theorem seen_at (seen : Seen fs roots path m) : ∃ at_, fs.root.At path at_ ∧ at_.mtime = some m := by
  obtain ⟨_,here | here⟩ := seen
  · exact ⟨_,here,rfl⟩
  · exact ⟨_,here,rfl⟩

theorem seen_unique (first : Seen fs roots path m) (second : Seen fs roots path m') : m = m' := by
  obtain ⟨a,hereA,timeA⟩ := seen_at first
  obtain ⟨b,hereB,timeB⟩ := seen_at second
  obtain rfl := at_unique fs.root fs.distinct path hereA hereB
  exact Option.some.inj (timeA.symm.trans timeB)

theorem snapshot_sound (fs : FileSystem) (roots : List Path) (there : (snapshotMtimes fs.root roots).lookup k = some m) :
    ∃ path, k = key path ∧ Shows fs roots path m := by
  have fold (rest : List Path) (inside : rest ⊆ roots) (map : Mtimes)
      (old : ∀ k m, map.lookup k = some m → ∃ path, k = key path ∧ Shows fs roots path m) :
      ∀ k m, (rest.foldl (fun map root => match fs.root.find root with
        | some node => walk [(root,node)] map
        | none => map) map).lookup k = some m → ∃ path, k = key path ∧ Shows fs roots path m := by
    induction rest generalizing map with
    | nil => exact old
    | cons root rest ih =>
      obtain ⟨first,later⟩ := List.cons_subset.mp inside
      rw [List.foldl_cons]
      apply ih later
      split
      next node found =>
        apply walk_sound _ _ _ old
        rintro e member path m shown
        obtain rfl := List.mem_singleton.mp member
        exact ⟨root ++ path,rfl,root,first,node,path,found,rfl,shown⟩
      next => exact old
  apply fold roots (List.Subset.refl _) ∅ _ k m there
  intro k m none_
  simp at none_

theorem snapshot_complete (fs : FileSystem) (roots : List Path) (shows_ : Shows fs roots path m) :
    key path ∈ snapshotMtimes fs.root roots := by
  obtain ⟨root,member,node,rest,found,rfl,shown⟩ := shows_
  have fold (others : List Path) (map : Mtimes) (there : key (root ++ rest) ∈ map ∨ root ∈ others) :
      key (root ++ rest) ∈ others.foldl (fun map root => match fs.root.find root with
        | some node => walk [(root,node)] map
        | none => map) map := by
    induction others generalizing map with
    | nil => simpa using there
    | cons other others ih =>
      rw [List.foldl_cons]
      apply ih
      rcases there with old | here
      · left
        split
        · exact walk_complete _ _ (.inl old)
        · exact old
      · rcases List.mem_cons.mp here with rfl | later
        · left
          rw [found]
          exact walk_complete _ _ (.inr ⟨(root,node),List.mem_singleton_self _,rest,m,shown,rfl⟩)
        · exact .inr later
  exact fold roots ∅ (.inr member)

theorem snapshot_lookup (fs : FileSystem) (roots : List Path) (path : Path) (m : Int) :
    (snapshotMtimes fs.root roots).lookup (key path) = some m ↔ Shows fs roots path m := by
  constructor
  · intro there
    obtain ⟨other,same,shows_⟩ := snapshot_sound fs roots there
    obtain rfl := key_injective same
    exact shows_
  · intro shows_
    obtain ⟨m',there⟩ := Option.isSome_iff_exists.mp (AList.lookup_isSome.mpr (snapshot_complete fs roots shows_))
    obtain ⟨other,same,others⟩ := snapshot_sound fs roots there
    obtain rfl := key_injective same
    rw [there,seen_unique ((shows_iff ..).mp shows_) ((shows_iff ..).mp others)]

/-- Something appeared, disappeared or got another time at the path. -/
def Changed (before after : Path → Int → Prop) (path : Path) : Prop := ∃ m, ¬ (before path m ↔ after path m)

/-- The comparison is true exactly if an entry that the snapshots have changed. -/
theorem snapshot_changed (before after : FileSystem) (roots : List Path) :
    mtimesChanged (snapshotMtimes before.root roots) (snapshotMtimes after.root roots) = true ↔
      ∃ path, Changed (Seen before roots) (Seen after roots) path := by
  rw [mtimesChanged_iff]
  constructor
  · rintro ⟨k,differs⟩
    have some_ : ∃ path, k = key path := by
      by_contra none_
      push Not at none_
      have absent (fs : FileSystem) : (snapshotMtimes fs.root roots).lookup k = none := by
        by_contra there
        obtain ⟨m,there⟩ := Option.ne_none_iff_exists'.mp there
        obtain ⟨path,same,_⟩ := snapshot_sound fs roots there
        exact none_ path same
      exact differs (by rw [absent,absent])
    obtain ⟨path,rfl⟩ := some_
    refine ⟨path,?_⟩
    by_contra same
    simp only [Changed,not_exists,not_not,← shows_iff,← snapshot_lookup] at same
    exact differs (Option.ext same)
  · rintro ⟨path,m,differs⟩
    refine ⟨key path,fun same => differs ?_⟩
    rw [← shows_iff,← shows_iff,← snapshot_lookup,← snapshot_lookup,same]

/-- A regular file changed out of the walk's sight, or gave place to something else of the same
time, or took its place. -/
def Overlooked (before after : FileSystem) (roots : List Path) : Prop :=
  ∃ path, Changed (WatchedFile before roots) (WatchedFile after roots) path ∧
    (Hidden before roots path ∧ Hidden after roots path ∨ Reached before roots path ∧ Reached after roots path ∧
      ∃ m, before.root.At path (.file m) ∧ after.root.At path (.other m) ∨
        before.root.At path (.other m) ∧ after.root.At path (.file m))

/-- The walk came to something at one time and not at the other: to a regular file that is as it
was, or to a link, a pipe or a device, where neither time has a regular file. -/
def Extra (before after : FileSystem) (roots : List Path) : Prop :=
  ∃ path, (∃ m, before.root.At path (.file m) ∧ after.root.At path (.file m)) ∧
      ¬ (Reached before roots path ↔ Reached after roots path) ∨
    (∀ m, ¬ before.root.At path (.file m) ∧ ¬ after.root.At path (.file m)) ∧
      ∃ m, ¬ (Reached before roots path ∧ before.root.At path (.other m) ↔
        Reached after roots path ∧ after.root.At path (.other m))

def Found (before after : FileSystem) (roots : List Path) : Prop :=
  ∃ path, Changed (WatchedFile before roots) (WatchedFile after roots) path ∧
    Changed (Seen before roots) (Seen after roots) path

/-- Nothing but regular files, and directories that can be read. -/
def FileSystem.Open (fs : FileSystem) : Prop := ∀ path node, fs.root.At path node →
  (∃ m, node = .file m) ∨ ∃ entries, node = .dir true true entries

section Sight

theorem hidden_iff (fs : FileSystem) (roots : List Path) (path : Path) :
    Hidden fs roots path ↔ ∀ m, ¬ Seen fs roots path m := by
  constructor
  · rintro hidden m ⟨reached,here | here⟩
    · exact absurd (hidden reached _ here) Bool.false_ne_true
    · exact absurd (hidden reached _ here) Bool.false_ne_true
  · intro unseen reached node here
    cases node with
    | file m => exact absurd ⟨reached,.inl here⟩ (unseen m)
    | other m => exact absurd ⟨reached,.inr here⟩ (unseen m)
    | dir => rfl

theorem watchedFile_iff (fs : FileSystem) (roots : List Path) (path : Path) (m : Int) :
    WatchedFile fs roots path m ↔ (∃ root ∈ roots, root <+: path) ∧ fs.root.At path (.file m) := by
  constructor
  · rintro ⟨root,member,above,here⟩
    exact ⟨⟨root,member,above⟩,here⟩
  · rintro ⟨⟨root,member,above⟩,here⟩
    exact ⟨root,member,above,here⟩

theorem at_file_iff {fs : FileSystem} (here : fs.root.At path (.file m)) : fs.root.At path (.file m') ↔ m' = m := by
  constructor
  · intro there
    exact Node.file.inj (at_unique fs.root fs.distinct path there here)
  · rintro rfl
    exact here

theorem not_file_of_other {fs : FileSystem} (here : fs.root.At path (.other m)) : ¬ fs.root.At path (.file m') :=
  fun there => Node.noConfusion (at_unique fs.root fs.distinct path there here)

/-- The same regular file at both times, or none. -/
theorem unchanged_iff (before after : FileSystem) (roots : List Path) (path : Path)
    (watched : ∃ root ∈ roots, root <+: path) : ¬ Changed (WatchedFile before roots) (WatchedFile after roots) path ↔
      (∃ m, before.root.At path (.file m) ∧ after.root.At path (.file m)) ∨
        ∀ m, ¬ before.root.At path (.file m) ∧ ¬ after.root.At path (.file m) := by
  simp only [Changed,not_exists,not_not,watchedFile_iff,watched,true_and]
  constructor
  · intro same
    by_cases some_ : ∃ m, before.root.At path (.file m)
    · obtain ⟨m,here⟩ := some_
      exact .inl ⟨m,here,(same m).mp here⟩
    · exact .inr fun m => ⟨fun here => some_ ⟨m,here⟩,fun here => some_ ⟨m,(same m).mpr here⟩⟩
  · rintro (⟨m,first,second⟩ | none_) m'
    · rw [at_file_iff first,at_file_iff second]
    · exact iff_of_false (none_ m').1 (none_ m').2

theorem overlooked_iff (before after : FileSystem) (roots : List Path) : Overlooked before after roots ↔
    ∃ path, Changed (WatchedFile before roots) (WatchedFile after roots) path ∧
      ¬ Changed (Seen before roots) (Seen after roots) path := by
  refine exists_congr fun path => and_congr_right fun changed => ?_
  have watched : ∃ root ∈ roots, root <+: path := by
    obtain ⟨m,differs⟩ := changed
    by_contra none_
    exact differs (iff_of_false (fun here => none_ ((watchedFile_iff ..).mp here).1) fun here => none_ ((watchedFile_iff ..).mp here).1)
  constructor
  · rintro (⟨hidden,hidden'⟩ | ⟨reached,reached',m,kinds⟩) ⟨m',differs⟩
    · exact differs (iff_of_false ((hidden_iff ..).mp hidden m') ((hidden_iff ..).mp hidden' m'))
    · have seen : Seen before roots path m ∧ Seen after roots path m := by
        rcases kinds with ⟨first,second⟩ | ⟨first,second⟩
        · exact ⟨⟨reached,.inl first⟩,reached',.inr second⟩
        · exact ⟨⟨reached,.inr first⟩,reached',.inl second⟩
      apply differs
      constructor
      · exact fun here => seen_unique here seen.1 ▸ seen.2
      · exact fun here => seen_unique here seen.2 ▸ seen.1
  · intro same
    simp only [Changed,not_exists,not_not] at same
    by_cases some_ : ∃ m, Seen before roots path m
    · obtain ⟨m,seen⟩ := some_
      obtain ⟨reached',kind'⟩ := (same m).mp seen
      obtain ⟨reached,kind⟩ := seen
      refine .inr ⟨reached,reached',m,?_⟩
      rcases kind with first | first <;> rcases kind' with second | second
      · exact absurd changed ((unchanged_iff _ _ _ _ watched).mpr (.inl ⟨m,first,second⟩))
      · exact .inl ⟨first,second⟩
      · exact .inr ⟨first,second⟩
      · exact absurd changed ((unchanged_iff _ _ _ _ watched).mpr (.inr fun _ => ⟨not_file_of_other first,not_file_of_other second⟩))
    · refine .inl ⟨(hidden_iff ..).mpr fun m here => some_ ⟨m,here⟩,(hidden_iff ..).mpr fun m here => ?_⟩
      exact some_ ⟨m,(same m).mpr here⟩

theorem extra_iff (before after : FileSystem) (roots : List Path) : Extra before after roots ↔
    ∃ path, Changed (Seen before roots) (Seen after roots) path ∧
      ¬ Changed (WatchedFile before roots) (WatchedFile after roots) path := by
  refine exists_congr fun path => ?_
  have watched (changed : Changed (Seen before roots) (Seen after roots) path) : ∃ root ∈ roots, root <+: path := by
    obtain ⟨m,differs⟩ := changed
    by_contra none_
    have unreached (fs : FileSystem) : ¬ Seen fs roots path m := by
      rintro ⟨⟨root,member,above,_⟩,_⟩
      exact none_ ⟨root,member,above⟩
    exact differs (iff_of_false (unreached before) (unreached after))
  constructor
  · rintro (⟨⟨m,first,second⟩,reach⟩ | ⟨none_,m,differs⟩)
    · have changed : Changed (Seen before roots) (Seen after roots) path := by
        refine ⟨m,fun same => reach ⟨fun here => ?_,fun here => ?_⟩⟩
        · exact (same.mp ⟨here,.inl first⟩).1
        · exact (same.mpr ⟨here,.inl second⟩).1
      exact ⟨changed,(unchanged_iff _ _ _ _ (watched changed)).mpr (.inl ⟨m,first,second⟩)⟩
    · have changed : Changed (Seen before roots) (Seen after roots) path :=
        ⟨m,by simpa only [Seen,(none_ m).1,(none_ m).2,false_or] using differs⟩
      exact ⟨changed,(unchanged_iff _ _ _ _ (watched changed)).mpr (.inr none_)⟩
  · rintro ⟨changed,same⟩
    obtain ⟨m,differs⟩ := changed
    rcases (unchanged_iff _ _ _ _ (watched ⟨m,differs⟩)).mp same with ⟨m',first,second⟩ | none_
    · refine .inl ⟨⟨m',first,second⟩,fun reach => differs ?_⟩
      have other {fs : FileSystem} (here : fs.root.At path (.file m')) : ¬ fs.root.At path (.other m) :=
        fun there => not_file_of_other there here
      simp only [Seen,reach,at_file_iff first,at_file_iff second,other first,other second]
    · exact .inr ⟨none_,m,by simpa only [Seen,(none_ m).1,(none_ m).2,false_or] using differs⟩

end Sight

/-- With nothing but files and readable directories, the walk comes to all that is under a watched
path. -/
theorem reached_open (fs : FileSystem) (open_ : fs.Open) (above : ∃ root ∈ roots, root <+: path ∧ root ≠ path)
    (here : fs.root.At path at_) : Reached fs roots path := by
  obtain ⟨root,member,above,other⟩ := above
  refine ⟨root,member,above,other,?_⟩
  rintro front ⟨rest,rfl⟩ lower
  obtain ⟨node,there,below⟩ := (at_append ..).mp here
  cases rest with
  | nil => simp at lower
  | cons name rest =>
    obtain ⟨entry,inside,_⟩ := below
    rcases open_ front node there with ⟨m,rfl⟩ | ⟨entries,rfl⟩
    · simp [Node.entries] at inside
    · exact ⟨true,entries,there,fun _ => rfl⟩

/-- Under a watched directory the walk comes to every file, and to nothing else. -/
theorem seen_open (fs : FileSystem) (open_ : fs.Open) (roots : List Path) (path : Path) (m : Int) :
    Seen fs roots path m ↔ (∃ root ∈ roots, root <+: path ∧ root ≠ path) ∧ fs.root.At path (.file m) := by
  constructor
  · rintro ⟨⟨root,member,above,other,_⟩,here | here⟩
    · exact ⟨⟨root,member,above,other⟩,here⟩
    · rcases open_ path _ here with ⟨_,is⟩ | ⟨_,is⟩ <;> simp at is
  · rintro ⟨above,here⟩
    exact ⟨reached_open fs open_ above here,.inl here⟩

/-- With nothing but files and readable directories, the changes that are found are those of files
with a watched path above them. -/
theorem changed_open (before after : FileSystem) (openB : before.Open) (openA : after.Open) (roots : List Path)
    (path : Path) : Changed (Seen before roots) (Seen after roots) path ↔
      Changed (WatchedFile before roots) (WatchedFile after roots) path ∧ ∃ root ∈ roots, root <+: path ∧ root ≠ path := by
  simp only [Changed,seen_open before openB,seen_open after openA]
  by_cases above : ∃ root ∈ roots, root <+: path ∧ root ≠ path
  · have watched : ∃ root ∈ roots, root <+: path := by
      obtain ⟨root,member,above,_⟩ := above
      exact ⟨root,member,above⟩
    simp only [watchedFile_iff,above,watched,true_and,and_true]
  · simp only [above,false_and,not_true_eq_false,exists_false,and_false]

/-- When one of two kinds occurs exactly if the other does. -/
theorem exists_iff_exists_iff {α : Type} (P Q : α → Prop) : ((∃ x, P x) ↔ ∃ x, Q x) ↔
    (∃ x, Q x ∧ P x) ∨ ((∃ x, Q x ∧ ¬ P x) ↔ ∃ x, P x ∧ ¬ Q x) := by
  constructor
  · intro same
    by_cases both : ∃ x, Q x ∧ P x
    · exact .inl both
    · refine .inr ⟨?_,?_⟩
      · rintro ⟨x,q,_⟩
        obtain ⟨y,p⟩ := same.mpr ⟨x,q⟩
        exact ⟨y,p,fun q => both ⟨y,q,p⟩⟩
      · rintro ⟨x,p,_⟩
        obtain ⟨y,q⟩ := same.mp ⟨x,p⟩
        exact ⟨y,q,fun p => both ⟨y,q,p⟩⟩
  · rintro (⟨x,q,p⟩ | same)
    · exact iff_of_true ⟨x,p⟩ ⟨x,q⟩
    · constructor
      · rintro ⟨x,p⟩
        by_cases q : Q x
        · exact ⟨x,q⟩
        · obtain ⟨y,q,_⟩ := same.mpr ⟨x,p,q⟩
          exact ⟨y,q⟩
      · rintro ⟨x,q⟩
        by_cases p : P x
        · exact ⟨x,p⟩
        · obtain ⟨y,p,_⟩ := same.mp ⟨x,q,p⟩
          exact ⟨y,p⟩

/-- The comparison tells whether a watched file changed exactly if it finds a change of one, or if
it overlooks one just when it takes something else for a change. If there are only files and
readable directories, it does unless all that changed is watched itself and has no watched
directory above it. -/
theorem diff_sees_iff (before after : FileSystem) (roots : List Path) :
    ((mtimesChanged (snapshotMtimes before.root roots) (snapshotMtimes after.root roots) = true ↔
        ∃ path, Changed (WatchedFile before roots) (WatchedFile after roots) path) ↔
      Found before after roots ∨ (Overlooked before after roots ↔ Extra before after roots)) ∧
    (before.Open → after.Open →
      ((mtimesChanged (snapshotMtimes before.root roots) (snapshotMtimes after.root roots) = true ↔
        ∃ path, Changed (WatchedFile before roots) (WatchedFile after roots) path) ↔
      ∀ path, Changed (WatchedFile before roots) (WatchedFile after roots) path →
        ∃ path, Changed (WatchedFile before roots) (WatchedFile after roots) path ∧
          ∃ root ∈ roots, root <+: path ∧ root ≠ path)) := by
  rw [snapshot_changed]
  constructor
  · rw [overlooked_iff,extra_iff]
    exact exists_iff_exists_iff _ _
  · intro openB openA
    simp only [changed_open before after openB openA roots]
    constructor
    · intro tells path changed
      exact tells.mpr ⟨path,changed⟩
    · intro above
      constructor
      · rintro ⟨path,changed,_⟩
        exact ⟨path,changed⟩
      · rintro ⟨path,changed⟩
        exact above path changed

section Service

def bin : Name := ⟨"bin".toList,by decide,by decide⟩
def svc : Name := ⟨"my-svc".toList,by decide,by decide⟩

def service (mtime : Int) : Node := .dir true true [(bin,.dir true true [(svc,.file mtime)])]

theorem service_at (here : (service mtime).At path node) : path = [] ∧ node = service mtime ∨
    path = [bin] ∧ node = .dir true true [(svc,.file mtime)] ∨ path = [bin,svc] ∧ node = .file mtime := by
  cases path with
  | nil => exact .inl ⟨rfl,here⟩
  | cons first path =>
    obtain ⟨entry,member,here⟩ := here
    obtain ⟨rfl,rfl⟩ := Prod.mk.inj (List.mem_singleton.mp member)
    cases path with
    | nil => exact .inr (.inl ⟨rfl,here⟩)
    | cons second path =>
      obtain ⟨entry,member,here⟩ := here
      obtain ⟨rfl,rfl⟩ := Prod.mk.inj (List.mem_singleton.mp member)
      cases path with
      | nil => exact .inr (.inr ⟨rfl,here⟩)
      | cons third path =>
        obtain ⟨entry,member,_⟩ := here
        simp [Node.entries] at member

def deployed (mtime : Int) : FileSystem where
  root := service mtime
  distinct path node here := by
    rcases service_at here with ⟨_,rfl⟩ | ⟨_,rfl⟩ | ⟨_,rfl⟩ <;> simp [service,Node.entries]

theorem deployed_open (mtime : Int) : (deployed mtime).Open := by
  intro path node here
  rcases service_at here with ⟨_,rfl⟩ | ⟨_,rfl⟩ | ⟨_,rfl⟩
  · exact .inr ⟨_,rfl⟩
  · exact .inr ⟨_,rfl⟩
  · exact .inl ⟨_,rfl⟩

/-- The binary is written anew. -/
theorem deployed_changed (roots : List Path) (watched : root ∈ roots) (above : root <+: [bin,svc]) :
    Changed (WatchedFile (deployed 1) roots) (WatchedFile (deployed 2) roots) [bin,svc] := by
  refine ⟨1,fun same => ?_⟩
  have old : WatchedFile (deployed 1) roots [bin,svc] 1 :=
    ⟨root,watched,above,_,List.mem_singleton_self _,_,List.mem_singleton_self _,rfl⟩
  obtain ⟨_,_,_,new⟩ := same.mp old
  rcases service_at new with ⟨no,_⟩ | ⟨no,_⟩ | ⟨_,no⟩
  · simp at no
  · simp at no
  · simp at no

/-- The directory of the binary is watched. -/
theorem diff_sees_directory : mtimesChanged (snapshotMtimes (deployed 1).root [[bin]])
    (snapshotMtimes (deployed 2).root [[bin]]) = true := by
  have changed := deployed_changed [[bin]] (List.mem_singleton_self _) ⟨[svc],rfl⟩
  refine (((diff_sees_iff (deployed 1) (deployed 2) [[bin]]).2 (deployed_open 1) (deployed_open 2)).mpr ?_).mpr
    ⟨_,changed⟩
  exact fun _ _ => ⟨_,changed,[bin],List.mem_singleton_self _,⟨[svc],rfl⟩,by simp⟩

/-- The binary itself is watched, as in `--watch /usr/local/bin/my-svc`. -/
theorem watched_binary_unseen : ¬ ∀ (before after : FileSystem) (roots : List Path),
    (mtimesChanged (snapshotMtimes before.root roots) (snapshotMtimes after.root roots) = true ↔
      ∃ path, Changed (WatchedFile before roots) (WatchedFile after roots) path) := by
  intro holds
  have changed := deployed_changed [[bin,svc]] (List.mem_singleton_self _) (List.prefix_refl _)
  have seen := (holds (deployed 1) (deployed 2) [[bin,svc]]).mpr ⟨_,changed⟩
  have nothing (mtime : Int) : snapshotMtimes (deployed mtime).root [[bin,svc]] = ∅ := by
    have found : (deployed mtime).root.find [bin,svc] = some (.file mtime) := rfl
    simp [snapshotMtimes,found,walk,subdirs,files,insertAll,Node.listing]
  rw [nothing,nothing] at seen
  exact absurd seen (by decide)

end Service

end Malkuth.BuildDiff
