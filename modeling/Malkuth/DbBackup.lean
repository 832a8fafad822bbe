import Malkuth.Numerals
import Mathlib.Data.Char
import Mathlib.Data.List.Dedup
import Mathlib.Data.List.Lex
import Mathlib.Data.List.Sort
import Mathlib.Logic.Function.Basic

/-! The dumps of `db_backup.rs`: their names, and the rotation that keeps the newest of each
database. A directory is the list of its file names. Names sort by their bytes, and the UTF-8
bytes of two texts are in the order of their characters. -/
namespace Malkuth.DbBackup

open Numerals

abbrev Name := List Char

def isLabelChar (c : Char) : Bool := c.isAlphanum || c == '-' || c == '_'

@[ext]
structure Label where
  text : List Char
  safe : ∀ c ∈ text, isLabelChar c = true
  deriving DecidableEq

def sanitizeLabel (s : List Char) : Label where
  text := s.map fun c => if isLabelChar c then c else '_'
  safe := by
    intro c member
    obtain ⟨d,_,rfl⟩ := List.mem_map.mp member
    split
    · assumption
    · decide

/-- A time of `Utc::now()` with a year of four digits. -/
structure Stamp where
  year : Nat
  month : Nat
  day : Nat
  hour : Nat
  minute : Nat
  second : Nat
  fits : year < 10000 ∧ month < 100 ∧ day < 100 ∧ hour < 100 ∧ minute < 100 ∧ second < 100
  deriving DecidableEq

def Stamp.text (t : Stamp) : List Char :=
  pad 4 t.year ++ pad 2 t.month ++ pad 2 t.day ++ '-' :: (pad 2 t.hour ++ pad 2 t.minute ++ pad 2 t.second)

/-- The fields as one number, year first: stamps in order of time. -/
def Stamp.time (t : Stamp) : Nat :=
  ((((t.year * 100 + t.month) * 100 + t.day) * 100 + t.hour) * 100 + t.minute) * 100 + t.second

/-- A dump that `run_backup` creates; it is encrypted if the configuration has a key. -/
structure Dump where
  host : Label
  db : Label
  stamp : Stamp
  encrypted : Bool
  deriving DecidableEq

def Dump.label (d : Dump) : Name := d.host.text ++ '-' :: d.db.text

def extension (encrypted : Bool) : List Char := if encrypted then ".dump.age".toList else ".dump".toList

def Dump.name (d : Dump) : Name := d.label ++ '-' :: (d.stamp.text ++ extension d.encrypted)

def isDump (name : Name) : Bool :=
  ".dump".toList.isSuffixOf name || ".dump.age".toList.isSuffixOf name

def stripSuffix (ending name : List Char) : List Char :=
  if ending.isSuffixOf name then name.take (name.length - ending.length) else name

def stampLen : Nat := 15

def stripStamp (base : List Char) : List Char :=
  if base.length < stampLen + 1 + 1 then base
  else
    let stampStart := base.length - stampLen
    let stamp := base.drop stampStart
    if stamp[8]? = some '-' ∧ (stamp.zipIdx.all fun (c,i) => i == 8 || c.isDigit) ∧ base[stampStart - 1]? = some '-' then
      base.take (stampStart - 1)
    else base

def groupOf (name : Name) : List Char := stripStamp (stripSuffix ".dump".toList (stripSuffix ".age".toList name))

def byGroup (entries : List Name) : List Char → List Name :=
  entries.foldl (fun groups name =>
    if isDump name then Function.update groups (groupOf name) (groups (groupOf name) ++ [name]) else groups) fun _ => []

/-- What `rotate` takes from outside: the order in which the map is walked, and which files can
be removed. -/
structure World where
  order : List (List Char) → List (List Char)
  perm : ∀ keys, (order keys).Perm keys
  removes : Name → Bool

def stale (retain : Nat) (files : List Name) : List Name :=
  let files := files.insertionSort (· ≤ ·)
  if retain < files.length then files.take (files.length - retain) else []

def removeFile (world : World) (dir : List Name) (name : Name) : List Name :=
  if world.removes name then dir.filter (· ≠ name) else dir

/-- The directory after `rotate`. -/
def rotate (world : World) (retain : Nat) (entries : List Name) : List Name :=
  (world.order ((entries.filter isDump).map groupOf).dedup).foldl
    (fun dir group => (stale retain (byGroup entries group)).foldl (removeFile world) dir) entries

theorem length_text (t : Stamp) : t.text.length = stampLen := by
  simp [Stamp.text,stampLen]

def Stamp.date (t : Stamp) : Nat := t.year * 10000 + t.month * 100 + t.day

def Stamp.clock (t : Stamp) : Nat := t.hour * 10000 + t.minute * 100 + t.second

theorem text_eq (t : Stamp) : t.text = pad 8 t.date ++ '-' :: pad 6 t.clock := by
  obtain ⟨_,month,day,_,minute,second⟩ := t.fits
  have date : (t.year * 100 + t.month) * 100 + t.day = t.date := by
    unfold Stamp.date
    omega
  have clock : (t.hour * 100 + t.minute) * 100 + t.second = t.clock := by
    unfold Stamp.clock
    omega
  have left : pad 4 t.year ++ pad 2 t.month ++ pad 2 t.day = pad 8 t.date := by
    rw [pad_two _ _ month,pad_two _ _ day,date]
  have right : pad 2 t.hour ++ pad 2 t.minute ++ pad 2 t.second = pad 6 t.clock := by
    rw [pad_two _ _ minute,pad_two _ _ second,clock]
  rw [Stamp.text,left,right]

theorem date_lt (t : Stamp) : t.date < 10 ^ 8 := by
  obtain ⟨year,month,day,_,_,_⟩ := t.fits
  unfold Stamp.date
  omega

theorem clock_lt (t : Stamp) : t.clock < 10 ^ 6 := by
  obtain ⟨_,_,_,hour,minute,second⟩ := t.fits
  unfold Stamp.clock
  omega

theorem time_eq (t : Stamp) : t.time = t.date * 1000000 + t.clock := by
  unfold Stamp.time Stamp.date Stamp.clock
  omega

/-- Texts of stamps are in the order of their times. -/
theorem text_lt {t u : Stamp} (earlier : t.time < u.time) : t.text < u.text := by
  have tClock := clock_lt t
  have uClock := clock_lt u
  rw [time_eq,time_eq] at earlier
  rw [text_eq,text_eq]
  rcases Nat.lt_trichotomy t.date u.date with date | date | date
  · exact append_lt_append (by simp) (pad_lt date (date_lt u))
  · rw [date]
    apply List.append_left_lt
    exact List.cons_lt_cons_iff.mpr (.inr ⟨rfl,pad_lt (by omega) uClock⟩)
  · omega

/-- Names of one label are in the order of their times, whatever their extensions. -/
theorem name_lt {d e : Dump} (label : d.label = e.label) (earlier : d.stamp.time < e.stamp.time) : d.name < e.name := by
  unfold Dump.name
  rw [label]
  apply List.append_left_lt
  refine List.cons_lt_cons_iff.mpr (.inr ⟨rfl,?_⟩)
  exact append_lt_append (by rw [length_text,length_text]) (text_lt earlier)

theorem text_separator (t : Stamp) : t.text[8]? = some '-' := by
  rw [text_eq,List.getElem?_append_right (by simp)]
  simp

theorem text_digits (t : Stamp) : (t.text.zipIdx.all fun (c,i) => i == 8 || c.isDigit) = true := by
  rw [List.all_eq_true]
  rintro ⟨c,i⟩ member
  have here := List.mem_zipIdx_iff_getElem?.mp member
  rw [text_eq] at here
  by_cases separator : i = 8
  · simp [separator]
  · have digit : c.isDigit = true := by
      rcases Nat.lt_or_gt_of_ne separator with low | high
      · rw [List.getElem?_append_left (by simpa using low)] at here
        exact isDigit_of_mem_pad (List.mem_of_getElem? here)
      · obtain ⟨j,rfl⟩ : ∃ j, i = 8 + (j + 1) := ⟨i - 9,by omega⟩
        rw [List.getElem?_append_right (by simp),length_pad,Nat.add_sub_cancel_left,List.getElem?_cons_succ] at here
        exact isDigit_of_mem_pad (List.mem_of_getElem? here)
    simp [digit]

/-- The stamp is stripped as a whole and nothing else is, whatever the label looks like. -/
theorem stripStamp_append (label : List Char) (some_ : label ≠ []) (t : Stamp) :
    stripStamp (label ++ '-' :: t.text) = label := by
  have positive := List.length_pos_iff.mpr some_
  have length : (label ++ '-' :: t.text).length = label.length + 1 + stampLen := by
    rw [List.length_append,List.length_cons,length_text,Nat.add_assoc,Nat.add_comm stampLen]
  have start : (label ++ '-' :: t.text).length - stampLen = label.length + 1 := by omega
  have stamp : (label ++ '-' :: t.text).drop (label.length + 1) = t.text := by
    rw [List.append_cons]
    exact List.drop_left' (by simp)
  unfold stripStamp
  rw [if_neg (by omega)]
  dsimp only
  rw [start,stamp,Nat.add_sub_cancel,if_pos ⟨text_separator t,text_digits t,by simp⟩]
  exact List.take_left' rfl

theorem stripSuffix_append (front ending : List Char) : stripSuffix ending (front ++ ending) = front := by
  rw [stripSuffix,if_pos (by simp),List.length_append,Nat.add_sub_cancel]
  exact List.take_left' rfl

theorem not_age (front : List Char) : ".age".toList.isSuffixOf (front ++ ".dump".toList) = false := by
  rw [Bool.eq_false_iff]
  intro ends
  obtain ⟨other,eq⟩ := List.isSuffixOf_iff_suffix.mp ends
  have last := congrArg List.getLast? eq
  simp at last

theorem isDump_append (base : List Char) (encrypted : Bool) : isDump (base ++ extension encrypted) = true := by
  have ends := List.isSuffixOf_iff_suffix.mpr (List.suffix_append base (extension encrypted))
  unfold isDump
  cases encrypted with
  | false => exact Bool.or_eq_true_iff.mpr (.inl ends)
  | true => exact Bool.or_eq_true_iff.mpr (.inr ends)

/-- A dump belongs to the group of its label. -/
theorem groupOf_name (d : Dump) : isDump d.name = true ∧ groupOf d.name = d.label := by
  have stamped : stripStamp (d.label ++ '-' :: d.stamp.text) = d.label :=
    stripStamp_append d.label (by simp [Dump.label]) d.stamp
  have whole : d.name = (d.label ++ '-' :: d.stamp.text) ++ extension d.encrypted := by simp [Dump.name]
  rw [whole]
  refine ⟨isDump_append ..,?_⟩
  unfold groupOf extension
  cases d.encrypted with
  | false =>
    rw [if_neg Bool.false_ne_true,stripSuffix.eq_1 ".age".toList,not_age,if_neg Bool.false_ne_true,stripSuffix_append,stamped]
  | true =>
    have split_ : ".dump.age".toList = ".dump".toList ++ ".age".toList := by decide
    rw [if_pos rfl,split_,← List.append_assoc,stripSuffix_append,stripSuffix_append,stamped]

def inGroup (group : List Char) (name : Name) : Bool := isDump name && groupOf name == group

theorem byGroup_eq (entries : List Name) (group : List Char) : byGroup entries group = entries.filter (inGroup group) := by
  have general : ∀ groups : List Char → List Name, (entries.foldl (fun groups name =>
      if isDump name then Function.update groups (groupOf name) (groups (groupOf name) ++ [name]) else groups) groups) group =
        groups group ++ entries.filter (inGroup group) := by
    induction entries with
    | nil => simp
    | cons name entries ih =>
      intro groups
      rw [List.foldl_cons,ih,List.filter_cons,inGroup]
      cases isDump name with
      | false => simp
      | true =>
        by_cases own : groupOf name = group
        · subst own
          simp
        · simp [own,Function.update_of_ne (Ne.symm own)]
  exact general fun _ => []

theorem mem_foldl_removeFile (world : World) (removes : ∀ name, world.removes name = true) (names dir : List Name) :
    n ∈ names.foldl (removeFile world) dir ↔ n ∈ dir ∧ n ∉ names := by
  induction names generalizing dir with
  | nil => simp
  | cons name names ih =>
    rw [List.foldl_cons,ih,removeFile,if_pos (removes name),List.mem_filter,List.mem_cons]
    simp only [decide_eq_true_eq]
    tauto

theorem stale_eq (retain : Nat) (files : List Name) :
    stale retain files = (files.insertionSort (· ≤ ·)).take (files.length - retain) := by
  unfold stale
  dsimp only
  rw [List.length_insertionSort]
  split
  · rfl
  · rw [Nat.sub_eq_zero_of_le (by omega),List.take_zero]

/-- A name is stale in no group but its own. -/
theorem stale_inGroup {entries : List Name} (gone : n ∈ stale retain (entries.filter (inGroup group))) :
    n ∈ entries ∧ inGroup group n = true := by
  rw [stale_eq] at gone
  exact List.mem_filter.mp ((List.mem_insertionSort _).mp (List.mem_of_mem_take gone))

theorem mem_rotate (world : World) (removes : ∀ name, world.removes name = true) (retain : Nat) (entries : List Name) :
    n ∈ rotate world retain entries ↔
      n ∈ entries ∧ ∀ group, n ∉ stale retain (entries.filter (inGroup group)) := by
  have general : ∀ (groups : List (List Char)) (dir : List Name),
      n ∈ groups.foldl (fun dir group => (stale retain (byGroup entries group)).foldl (removeFile world) dir) dir ↔
        n ∈ dir ∧ ∀ group ∈ groups, n ∉ stale retain (entries.filter (inGroup group)) := by
    intro groups
    induction groups with
    | nil => simp
    | cons group groups ih =>
      intro dir
      rw [List.foldl_cons,ih,mem_foldl_removeFile world removes,byGroup_eq,List.forall_mem_cons,and_assoc]
  unfold rotate
  rw [general,and_congr_right_iff]
  intro inside
  constructor
  · intro kept group gone
    -- a group with a stale file is among those that are walked
    obtain ⟨dump,same⟩ := Bool.and_eq_true_iff.mp (stale_inGroup gone).2
    apply kept group _ gone
    rw [(world.perm _).mem_iff,List.mem_dedup,List.mem_map]
    exact ⟨n,List.mem_filter.mpr ⟨inside,dump⟩,by simpa using same⟩
  · intro kept group _
    exact kept group

/-- All but the last `retain` of a group are stale. -/
theorem length_fresh (retain : Nat) (files : List Name) (distinct : files.Nodup) :
    (files.filter (· ∉ stale retain files)).length = min retain files.length := by
  have perm := List.perm_insertionSort (· ≤ ·) files
  have length := perm.length_eq
  rw [stale_eq]
  generalize files.insertionSort (· ≤ ·) = sorted at perm length ⊢
  have cut := List.take_append_drop (files.length - retain) sorted
  have apart := cut ▸ perm.nodup_iff.mpr distinct
  rw [(perm.symm.filter _).length_eq]
  have first : (sorted.take (files.length - retain)).filter (· ∉ sorted.take (files.length - retain)) = [] := by
    rw [List.filter_eq_nil_iff]
    intro name member
    simpa using member
  have last : (sorted.drop (files.length - retain)).filter (· ∉ sorted.take (files.length - retain)) =
      sorted.drop (files.length - retain) := by
    rw [List.filter_eq_self]
    intro name member
    simpa using fun early => (List.disjoint_of_nodup_append apart) early member
  calc (sorted.filter (· ∉ sorted.take (files.length - retain))).length
      = ((sorted.take (files.length - retain) ++ sorted.drop (files.length - retain)).filter
          (· ∉ sorted.take (files.length - retain))).length := by rw [cut]
    _ = (sorted.drop (files.length - retain)).length := by rw [List.filter_append,first,last,List.nil_append]
    _ = min retain files.length := by
      rw [List.length_drop]
      omega

/-- What is not stale does not sort before what is. -/
theorem stale_le (retain : Nat) (files : List Name) (gone : g ∈ stale retain files) (inside : n ∈ files)
    (kept : n ∉ stale retain files) : g ≤ n := by
  have sorted := List.pairwise_insertionSort (· ≤ ·) files
  rw [stale_eq] at gone kept
  rw [← List.take_append_drop (files.length - retain) (files.insertionSort (· ≤ ·)),List.pairwise_append] at sorted
  have member : n ∈ files.insertionSort (· ≤ ·) := (List.mem_insertionSort _).mpr inside
  rw [← List.take_append_drop (files.length - retain) (files.insertionSort (· ≤ ·)),List.mem_append] at member
  exact sorted.2.2 g gone n (member.resolve_left kept)

/-- A directory of dumps and of files with other extensions, in the order in which `read_dir`
lists them. -/
structure Directory where
  entries : List Name
  dumps : List Dump
  others : List Name
  foreign : ∀ name ∈ others, isDump name = false
  lists : entries.Perm (dumps.map Dump.name ++ others)
  distinct : entries.Nodup

theorem Directory.group (dir : Directory) (label : List Char) :
    (dir.entries.filter (inGroup label)).Perm ((dir.dumps.filter fun d => d.label = label).map Dump.name) := by
  have none_ : dir.others.filter (inGroup label) = [] := by
    rw [List.filter_eq_nil_iff]
    intro name member
    simp [inGroup,dir.foreign name member]
  have own : (dir.dumps.map Dump.name).filter (inGroup label) = (dir.dumps.filter fun d => d.label = label).map Dump.name := by
    rw [List.filter_map]
    congr 1
    apply List.filter_congr
    intro d _
    simp [inGroup,groupOf_name d,beq_eq_decide]
  have perm := dir.lists.filter (inGroup label)
  rwa [List.filter_append,none_,List.append_nil,own] at perm

theorem inGroup_name (d : Dump) : inGroup group d.name = true ↔ d.label = group := by
  simp [inGroup,groupOf_name d]

/-- A dump is kept unless it is stale in the group of its label. -/
theorem Directory.kept (dir : Directory) (world : World) (removes : ∀ name, world.removes name = true) (retain : Nat)
    (member : d ∈ dir.dumps) : d.name ∈ rotate world retain dir.entries ↔
      d.name ∉ stale retain (dir.entries.filter (inGroup d.label)) := by
  have inside : d.name ∈ dir.entries := dir.lists.mem_iff.mpr (List.mem_append_left _ (List.mem_map_of_mem member))
  rw [mem_rotate world removes]
  constructor
  · intro kept
    exact kept.2 d.label
  · intro kept
    refine ⟨inside,fun group gone => ?_⟩
    obtain rfl := (inGroup_name d).mp (stale_inGroup gone).2
    exact kept gone

/-- After a rotation the newest dumps of each label are left, as many as are retained, and every
other file. -/
theorem rotate_keeps_newest (world : World) (removes : ∀ name, world.removes name = true) (retain : Nat) (dir : Directory) :
    (∀ name ∈ dir.others, name ∈ rotate world retain dir.entries) ∧
    (∀ name ∈ rotate world retain dir.entries, name ∈ dir.entries) ∧
    (∀ label, ((dir.dumps.filter fun d => d.label = label).filter fun d => d.name ∈ rotate world retain dir.entries).length =
      min retain (dir.dumps.filter fun d => d.label = label).length) ∧
    (∀ kept ∈ dir.dumps, ∀ gone ∈ dir.dumps, kept.label = gone.label → kept.name ∈ rotate world retain dir.entries →
      gone.name ∉ rotate world retain dir.entries → gone.stamp.time ≤ kept.stamp.time) ∧
    ∀ (host db : Label) (stamp : Stamp),
      stripStamp (host.text ++ '-' :: db.text ++ '-' :: stamp.text) = host.text ++ '-' :: db.text := by
  refine ⟨?_,?_,?_,?_,?_⟩
  · intro name member
    rw [mem_rotate world removes]
    refine ⟨dir.lists.mem_iff.mpr (List.mem_append_right _ member),fun group gone => ?_⟩
    have own := (stale_inGroup gone).2
    simp [inGroup,dir.foreign name member] at own
  · intro name member
    exact ((mem_rotate world removes retain dir.entries).mp member).1
  · intro label
    have group := dir.group label
    have fresh := length_fresh retain _ (dir.distinct.filter (inGroup label))
    rw [group.length_eq,List.length_map,(group.filter _).length_eq,List.filter_map,List.length_map] at fresh
    rw [← fresh]
    congr 1
    apply List.filter_congr
    intro d member
    obtain ⟨inside,own⟩ := List.mem_filter.mp member
    obtain rfl : d.label = label := by simpa using own
    simp only [Function.comp_apply,dir.kept world removes retain inside]
  · intro kept keptIn gone goneIn same stays leaves
    rw [dir.kept world removes retain keptIn] at stays
    rw [dir.kept world removes retain goneIn,not_not,← same] at leaves
    have inside : kept.name ∈ dir.entries.filter (inGroup kept.label) :=
      (dir.group kept.label).mem_iff.mpr (List.mem_map_of_mem (List.mem_filter.mpr ⟨keptIn,by simp⟩))
    have order := stale_le retain _ leaves inside stays
    by_contra later
    exact not_lt_of_ge order (name_lt same (Nat.lt_of_not_le later))
  · intro host db stamp
    exact stripStamp_append _ (by simp) stamp

/-- Two databases, one of them with a name that ends like a stamp, and a file that is no dump:
each keeps its newer dump. -/
theorem rotate_keeps_newest_of_two : ∃ (world : World) (dir : Directory),
    dir.entries = ["h-db-20260801-000000.dump".toList,"notes.txt".toList,"h-db-20260801-000000-20250101-120000.dump".toList,
      "h-db-20260802-000000.dump.age".toList,"h-db-20260801-000000-20250101-120001.dump".toList] ∧
    rotate world 1 dir.entries = ["notes.txt".toList,"h-db-20260802-000000.dump.age".toList,
      "h-db-20260801-000000-20250101-120001.dump".toList] ∧
    ∀ name ∈ dir.others, name ∈ rotate world 1 dir.entries := by
  let world : World := ⟨id,fun _ => .refl _,fun _ => true⟩
  let stamp (year month day hour second : Nat)
      (fits : year < 10000 ∧ month < 100 ∧ day < 100 ∧ hour < 100 ∧ 0 < 100 ∧ second < 100) : Stamp :=
    ⟨year,month,day,hour,0,second,fits⟩
  let dumps : List Dump :=
    [⟨sanitizeLabel "h".toList,sanitizeLabel "db".toList,stamp 2026 8 1 0 0 (by decide),false⟩,
      ⟨sanitizeLabel "h".toList,sanitizeLabel "db-20260801-000000".toList,stamp 2025 1 1 12 0 (by decide),false⟩,
      ⟨sanitizeLabel "h".toList,sanitizeLabel "db".toList,stamp 2026 8 2 0 0 (by decide),true⟩,
      ⟨sanitizeLabel "h".toList,sanitizeLabel "db-20260801-000000".toList,stamp 2025 1 1 12 1 (by decide),false⟩]
  let dir : Directory := ⟨["h-db-20260801-000000.dump".toList,"notes.txt".toList,
    "h-db-20260801-000000-20250101-120000.dump".toList,"h-db-20260802-000000.dump.age".toList,
    "h-db-20260801-000000-20250101-120001.dump".toList],dumps,["notes.txt".toList],by decide,by decide +kernel,by decide +kernel⟩
  exact ⟨world,dir,rfl,by decide +kernel,(rotate_keeps_newest world (fun _ => rfl) 1 dir).1⟩

end Malkuth.DbBackup
