import Malkuth.FamilyIdentity
import Mathlib.Data.List.Nodup

/-! What the scanner of `info_page.rs` is for: the grammar of a build identity, and when a binary
states exactly one. The scanner takes a little more than the grammar has. -/
namespace Malkuth.FamilyIdentity

open Occurrences

/-- `major.minor.patch branch:hash`, with one colon or two. -/
structure Stamp where
  major : List UInt8
  minor : List UInt8
  patch : List UInt8
  branch : List UInt8
  colons : List UInt8
  hash : List UInt8
  deriving DecidableEq

def Stamp.front (s : Stamp) : List UInt8 :=
  s.major ++ 46 :: (s.minor ++ 46 :: (s.patch ++ 32 :: (s.branch ++ s.colons)))

def Stamp.identity (s : Stamp) : Identity := ⟨s.branch,s.hash.take 7⟩

/-- The parts are of their kinds. The last digits may be missing, and the hash may be too long. -/
structure Stamp.Formed (s : Stamp) : Prop where
  major : s.major ≠ [] ∧ ∀ b ∈ s.major, isDigit b = true
  minor : s.minor ≠ [] ∧ ∀ b ∈ s.minor, isDigit b = true
  patch : ∀ b ∈ s.patch, isDigit b = true
  branch : s.branch ≠ [] ∧ ∀ b ∈ s.branch, isBranchByte b = true
  colons : s.colons = [58] ∨ s.colons = [58,58]
  hash : 7 ≤ s.hash.length ∧ ∀ b ∈ s.hash, isHexByte b = true

/-- Behind no digit and no dot. -/
def Free (before : Option UInt8) : Prop := ∀ b ∈ before, isDigit b = false ∧ b ≠ 46

/-- No hex digit follows. -/
def Ends (rest : List UInt8) : Prop := ∀ b ∈ rest.head?, isHexByte b = false

/-- Neither are the last digits missing nor is the hash too long. -/
def Stamp.Proper (s : Stamp) : Prop := s.patch ≠ [] ∧ s.hash.length ≤ 40

/-- The grammar: the hash is a whole run of hex digits. -/
def grammar : Pattern UInt8 Stamp := fun before piece rest s =>
  Free before ∧ s.Formed ∧ s.Proper ∧ piece = s.front ++ s.hash ∧ Ends rest

/-- What the scanner takes: of a longer hash it reads the first forty. -/
def taken : Pattern UInt8 Stamp := fun before piece rest s =>
  Free before ∧ s.Formed ∧ piece = s.front ++ s.hash.take 40 ∧ ∃ after, rest = s.hash.drop 40 ++ after ∧ Ends after

theorem taken_of_grammar (here : grammar before piece rest s) : taken before piece rest s := by
  obtain ⟨free,formed,⟨_,short⟩,is,ends⟩ := here
  refine ⟨free,formed,?_,rest,?_,ends⟩
  · rw [List.take_of_length_le short,is]
  · rw [List.drop_eq_nil_of_le short,List.nil_append]

theorem grammar_of_taken (here : taken before piece rest s) (proper : s.Proper) : grammar before piece rest s := by
  obtain ⟨free,formed,is,after,cut,ends⟩ := here
  rw [List.take_of_length_le proper.2] at is
  rw [List.drop_eq_nil_of_le proper.2,List.nil_append] at cut
  exact ⟨free,formed,proper,is,cut ▸ ends⟩

section Reading

theorem skipColon_cases (j : List UInt8) :
    (∃ rest, j = 58 :: rest ∧ skipColon j = rest) ∨ (j.head? ≠ some 58 ∧ skipColon j = j) := by
  unfold skipColon
  split
  next rest => exact .inl ⟨rest,rfl,rfl⟩
  next other =>
    refine .inr ⟨fun first => ?_,rfl⟩
    obtain ⟨rest,rfl⟩ := List.head?_eq_some_iff.mp first
    exact other rest rfl

theorem skipColon_plain (plain : k.head? ≠ some 58) : skipColon k = k := by
  rcases skipColon_cases k with ⟨rest,rfl,_⟩ | ⟨_,same⟩
  · exact absurd rfl plain
  · exact same

theorem skipColon_colons (plain : k.head? ≠ some 58) (colons : cs = [58] ∨ cs = [58,58]) :
    skipColon (skipColon (cs ++ k)) = k := by
  rcases colons with rfl | rfl
  · exact skipColon_plain plain
  · rfl

theorem colons_of_skipColon (shorter : (skipColon (skipColon j)).length ≠ j.length) :
    ∃ colons, (colons = [58] ∨ colons = [58,58]) ∧ j = colons ++ skipColon (skipColon j) := by
  rcases skipColon_cases j with ⟨rest,rfl,first⟩ | ⟨plain,first⟩
  · rw [first]
    rcases skipColon_cases rest with ⟨rest,rfl,second⟩ | ⟨_,second⟩
    · exact ⟨[58,58],.inr rfl,by rw [second]; rfl⟩
    · exact ⟨[58],.inl rfl,by rw [second]; rfl⟩
  · rw [first,first] at shorter
    exact absurd rfl shorter

/-- Behind the first forty of a run. -/
theorem drop_forty (hash after : List UInt8) :
    (hash ++ after).drop (hash.take 40).length = hash.drop 40 ++ after := by
  rw [List.length_take,List.drop_append,Nat.sub_eq_zero_of_le (Nat.min_le_right ..),List.drop_zero]
  rcases Nat.le_total 40 hash.length with long | short
  · rw [Nat.min_eq_left long]
  · rw [Nat.min_eq_right short,List.drop_length,List.drop_eq_nil_of_le short]

/-- What stands behind the version. -/
theorem branchAt_some : branchAt whole text = some (identity,more) ↔ ∃ branch colons hash after,
    text = branch ++ (colons ++ (hash ++ after)) ∧ (branch ≠ [] ∧ ∀ b ∈ branch, isBranchByte b = true) ∧
    (colons = [58] ∨ colons = [58,58]) ∧ (7 ≤ hash.length ∧ ∀ b ∈ hash, isHexByte b = true) ∧ Ends after ∧
    identity = ⟨branch,hash.take 7⟩ ∧ more = whole.length - (hash.drop 40 ++ after).length - 1 := by
  constructor
  · intro found
    simp only [branchAt] at found
    obtain ⟨some_,found⟩ := Option.ite_none_left_eq_some.mp found
    obtain ⟨colon,found⟩ := Option.ite_none_left_eq_some.mp found
    obtain ⟨shorter,_⟩ := not_or.mp colon
    obtain ⟨colons,one,cut⟩ := colons_of_skipColon shorter
    generalize skipColon (skipColon (text.dropWhile isBranchByte)) = k at cut found
    simp only [hashAt] at found
    obtain ⟨long,found⟩ := Option.ite_none_left_eq_some.mp found
    obtain ⟨rfl,rfl⟩ := Prod.mk.inj (Option.some.inj found)
    refine ⟨text.takeWhile isBranchByte,colons,k.takeWhile isHexByte,k.dropWhile isHexByte,?_,?_,one,?_,?_,?_,?_⟩
    · rw [List.takeWhile_append_dropWhile,← cut,List.takeWhile_append_dropWhile]
    · exact ⟨(not_or.mp some_).1,fun b member => List.mem_takeWhile_imp member⟩
    · rw [List.length_take] at long
      exact ⟨by omega,fun b member => List.mem_takeWhile_imp member⟩
    · exact dropWhile_ends isHexByte k
    · rw [List.take_take]
      rfl
    · rw [← drop_forty,List.takeWhile_append_dropWhile]
  · rintro ⟨branch,colons,hash,after,rfl,⟨some_,branches⟩,one,⟨long,hexes⟩,ends,rfl,rfl⟩
    obtain ⟨first,digits,rfl⟩ := List.exists_cons_of_ne_nil (List.ne_nil_of_length_pos (Nat.lt_of_lt_of_le (by decide) long))
    have hex : isHexByte first = true := hexes first List.mem_cons_self
    have colon : (colons ++ (first :: digits ++ after)).head? = some 58 := by rcases one with rfl | rfl <;> rfl
    obtain ⟨takes,drops⟩ := span_append isBranchByte branch (colons ++ (first :: digits ++ after)) branches (by
      intro b here
      obtain rfl := Option.some.inj (colon.symm.trans here)
      decide)
    have plain : (first :: digits ++ after).head? ≠ some 58 := by
      intro here
      obtain rfl := Option.some.inj here
      simp [isHexByte,isDigit] at hex
    obtain ⟨run,_⟩ := span_append isHexByte (first :: digits) after hexes ends
    have length : 0 < colons.length := by rcases one with rfl | rfl <;> decide
    simp only [branchAt,takes,drops,skipColon_colons plain one]
    rw [if_neg,if_neg,hashAt,run]
    · have seven : ¬ (((first :: digits).take 40).length < 7 ∨ 40 < ((first :: digits).take 40).length) := by
        rw [List.length_take]
        omega
      simp only [if_neg seven,drop_forty,List.take_take]
      rfl
    · rintro (same | not_)
      · simp only [List.length_append] at same
        omega
      · simp [hex] at not_
    · rintro (none_ | short)
      · exact some_ none_
      · simp only [List.length_append,List.length_cons] at short
        omega

theorem free_iff (before : Option UInt8) : before.any (fun b => isDigit b || b = 46) = false ↔ Free before := by
  cases before with
  | none => simp [Free]
  | some b => simp [Free]

/-- What the body of the loop finds at a place. -/
theorem identityAt_some (before : Option UInt8) (text : List UInt8) : identityAt before text = some (identity,more) ↔
    ∃ (s : Stamp) (after : List UInt8), Free before ∧ s.Formed ∧ text = s.front ++ (s.hash ++ after) ∧ Ends after ∧ identity = s.identity ∧
      more = text.length - (s.hash.drop 40 ++ after).length - 1 := by
  constructor
  · intro found
    obtain ⟨guard,found⟩ := Option.ite_none_left_eq_some.mp found
    obtain ⟨_,free⟩ := not_or.mp guard
    obtain ⟨afterBase,base,found⟩ := Option.bind_eq_some_iff.mp found
    obtain ⟨space,found⟩ := Option.ite_none_left_eq_some.mp found
    obtain ⟨behind,rfl⟩ := List.head?_eq_some_iff.mp (not_not.mp space)
    obtain ⟨branch,colons,hash,after,rfl,branches,one,hexes,ends,rfl,rfl⟩ := branchAt_some.mp found
    obtain ⟨major,minor,patch,rfl,majors,minors,patches,_,_⟩ := matchVersionBase_some.mp base
    refine ⟨⟨major,minor,patch,branch,colons,hash⟩,after,(free_iff before).mp (by simpa using free),
      ⟨majors,minors,patches,branches,one,hexes⟩,?_,ends,rfl,rfl⟩
    simp [Stamp.front]
  · rintro ⟨s,after,free,formed,rfl,ends,rfl,rfl⟩
    obtain ⟨first,digits,shown⟩ := List.exists_cons_of_ne_nil formed.major.1
    have digit : isDigit first = true := formed.major.2 first (by rw [shown]; exact List.mem_cons_self)
    have start : (s.front ++ (s.hash ++ after)).head? = some first := by simp [Stamp.front,shown]
    have cut : s.front ++ (s.hash ++ after) = s.major ++ 46 :: (s.minor ++ 46 :: (s.patch ++
        32 :: (s.branch ++ (s.colons ++ (s.hash ++ after))))) := by simp [Stamp.front]
    have base : matchVersionBase (s.front ++ (s.hash ++ after)) =
        some (32 :: (s.branch ++ (s.colons ++ (s.hash ++ after)))) := by
      refine matchVersionBase_some.mpr ⟨_,_,_,cut,formed.major,formed.minor,formed.patch,?_,by simp⟩
      intro b here
      obtain rfl := Option.some.inj here
      decide
    rw [identityAt,if_neg,base,Option.bind_some,if_neg (by simp),List.tail_cons]
    · exact branchAt_some.mpr ⟨_,_,_,_,rfl,formed.branch,formed.colons,formed.hash,ends,rfl,rfl⟩
    · rw [start,(free_iff before).mpr free]
      simp [digit]

theorem identityAt_finds : Finds identityAt (taken.image Stamp.identity) := by
  intro before x text identity more
  rw [identityAt_some]
  constructor
  · rintro ⟨s,after,free,formed,cut,ends,rfl,rfl⟩
    have halves : x :: text = (s.front ++ s.hash.take 40) ++ (s.hash.drop 40 ++ after) := by
      rw [cut,List.append_assoc,← List.append_assoc (s.hash.take 40),List.take_append_drop]
    obtain ⟨first,digits,shown⟩ := List.exists_cons_of_ne_nil formed.major.1
    obtain ⟨y,piece,is⟩ : ∃ y piece, s.front ++ s.hash.take 40 = y :: piece := by simp [Stamp.front,shown]
    rw [is,List.cons_append] at halves
    obtain ⟨rfl,rfl⟩ := List.cons.inj halves
    refine ⟨piece,s.hash.drop 40 ++ after,rfl,?_,s,⟨free,formed,is.symm,after,rfl,ends⟩,rfl⟩
    simp only [List.length_cons,List.length_append]
    omega
  · rintro ⟨piece,rest,rfl,rfl,s,⟨free,formed,is,after,rfl,ends⟩,rfl⟩
    refine ⟨s,after,free,formed,?_,ends,rfl,?_⟩
    · rw [← List.cons_append,is,List.append_assoc,← List.append_assoc (s.hash.take 40),List.take_append_drop]
    · simp only [List.length_cons,List.length_append]
      omega

end Reading

def runs (bytes : List UInt8) : List (List UInt8) := bytes.splitOnP fun b => !isPrintable b

section Runs

theorem scanAsciiRun_nil (identities : List Identity) : scanAsciiRun [] identities = identities := rfl

theorem flush_snd (run : List UInt8) (identities : List Identity) :
    (flush run identities).2 = scanAsciiRun run identities := by
  unfold flush
  split
  next none_ => rw [none_,scanAsciiRun_nil]
  next => rfl

/-- The loop over the bytes scans run after run. -/
theorem flush_takeBytes (bytes run : List UInt8) (identities : List Identity) :
    (flush (bytes.foldl takeByte (run,identities)).1 (bytes.foldl takeByte (run,identities)).2).2 =
      ((runs bytes).modifyHead (run ++ ·)).foldl (fun ids r => scanAsciiRun r ids) identities := by
  induction bytes generalizing run identities with
  | nil => simp [runs,flush_snd]
  | cons b bytes ih =>
    rw [List.foldl_cons,runs,List.splitOnP_cons_eq_if_modifyHead]
    by_cases printable : isPrintable b = true
    · rw [takeByte,if_pos printable,ih,if_neg (by simp [printable]),List.modifyHead_modifyHead]
      congr 2
      funext r
      simp
    · have cleared : takeByte (run,identities) b = ([],scanAsciiRun run identities) := by
        rw [takeByte,if_neg printable]
        refine Prod.ext ?_ (flush_snd run identities)
        unfold flush
        split
        next none_ => exact none_
        next => rfl
      have same : (runs bytes).modifyHead ([] ++ ·) = runs bytes := by cases runs bytes <;> rfl
      rw [cleared,ih,same,if_pos (by simp [printable]),List.modifyHead_cons,List.foldl_cons,List.append_nil]
      rfl

end Runs

section Verdict

/-- All of them tell one identity, and there is one at least. -/
def Sole (identity : Identity) (identities : List Identity) : Prop :=
  identities ≠ [] ∧ ∀ i ∈ identities, i = identity

theorem addNew_mem (identities : List Identity) (all : List Identity) :
    i ∈ all.foldl addNew identities ↔ i ∈ identities ∨ i ∈ all := by
  induction all generalizing identities with
  | nil => simp
  | cons first all ih =>
    rw [List.foldl_cons,ih,addNew]
    split
    next there =>
      have there : first ∈ identities := by simpa using there
      rw [List.mem_cons]
      constructor
      · tauto
      · rintro (old | rfl | new)
        · exact .inl old
        · exact .inl there
        · exact .inr new
    next => simp [or_assoc]

theorem addNew_nodup (identities all : List Identity) (nodup : identities.Nodup) : (all.foldl addNew identities).Nodup := by
  induction all generalizing identities with
  | nil => exact nodup
  | cons first all ih =>
    apply ih
    unfold addNew
    split
    next => exact nodup
    next absent =>
      have absent : first ∉ identities := by simpa using absent
      rw [List.nodup_append]
      refine ⟨nodup,List.nodup_singleton _,?_⟩
      rintro a member b only rfl
      exact absent (List.mem_singleton.mp only ▸ member)

theorem addNew_singleton (all : List Identity) : all.foldl addNew [] = [identity] ↔ Sole identity all := by
  have mem (i : Identity) : i ∈ all.foldl addNew [] ↔ i ∈ all := by simp [addNew_mem]
  constructor
  · intro one
    rw [one] at mem
    refine ⟨List.ne_nil_of_mem ((mem identity).mp (List.mem_singleton_self _)),fun i member => ?_⟩
    exact List.mem_singleton.mp ((mem i).mpr member)
  · rintro ⟨some_,same⟩
    have nodup := addNew_nodup [] all List.nodup_nil
    have only : ∀ i ∈ all.foldl addNew [], i = identity := fun i member => same i ((mem i).mp member)
    obtain ⟨i,member⟩ := List.exists_mem_of_ne_nil _ some_
    have there := (mem i).mpr member
    have copies := List.eq_replicate_of_mem only
    rw [copies,List.nodup_replicate] at nodup
    have length : (all.foldl addNew []).length = 1 := Nat.le_antisymm nodup (List.length_pos_of_mem there)
    rw [copies,length]
    rfl

/-- The scanner's verdict is that of all that it takes. -/
theorem scanFamilyIdentity_some (met : Scans (taken.image Stamp.identity) (runs bytes) identities)
    (answer : List UInt8) :
    scanFamilyIdentity bytes = some answer ↔ ∃ identity, Sole identity identities ∧ answer = identity.text := by
  have all : identities = (runs bytes).flatMap (scan identityAt none 0) :=
    met.unique identityAt_finds.single (scans_flatMap identityAt_finds (runs bytes))
  have final : (flush (bytes.foldl takeByte ([],[])).1 (bytes.foldl takeByte ([],[])).2).2 =
      identities.foldl addNew [] := by
    have same : (runs bytes).modifyHead ([] ++ ·) = runs bytes := by cases runs bytes <;> rfl
    rw [flush_takeBytes,same,all,List.foldl_flatMap]
    rfl
  unfold scanFamilyIdentity
  dsimp only
  rw [final]
  constructor
  · intro found
    split at found
    next identity one =>
      obtain rfl := Option.some.inj found
      exact ⟨identity,(addNew_singleton identities).mp one,rfl⟩
    · contradiction
  · rintro ⟨identity,sole,rfl⟩
    rw [(addNew_singleton identities).mpr sole]

/-- The hash that is told has seven digits, so the answer tells branch and hash apart. -/
theorem text_injective (first : taken before piece rest s) (second : taken before' piece' rest' s')
    (same : s.identity.text = s'.identity.text) : s.identity = s'.identity := by
  have seven := first.2.1.hash.1
  have seven' := second.2.1.hash.1
  obtain ⟨branch,hash⟩ := List.append_inj' same (by simp only [Stamp.identity,List.length_cons,List.length_take]; omega)
  obtain ⟨_,hash⟩ := List.cons.inj hash
  rw [Stamp.identity,Stamp.identity] at *
  exact congrArg₂ Identity.mk branch hash

/-- One of the stamps that tell the identity. -/
theorem Sole.stamp {met : List Stamp} (sole : Sole identity (met.map Stamp.identity)) :
    ∃ s ∈ met, identity = s.identity := by
  obtain ⟨i,member⟩ := List.exists_mem_of_ne_nil _ sole.1
  obtain ⟨s,inside,rfl⟩ := List.mem_map.mp member
  exact ⟨s,inside,(sole.2 _ member).symm⟩

theorem Sole.same_text {met proper : List Stamp} (meets : Scans taken (runs bytes) met)
    (stated : Scans grammar (runs bytes) proper) (sole : Sole identity (met.map Stamp.identity))
    (told : Sole identity' (proper.map Stamp.identity)) (same : identity.text = identity'.text) :
    identity = identity' := by
  obtain ⟨s,inside,rfl⟩ := sole.stamp
  obtain ⟨t,inside',rfl⟩ := told.stamp
  obtain ⟨_,_,_,first⟩ := meets.mem inside
  obtain ⟨_,_,_,second⟩ := stated.mem inside'
  exact text_injective first (taken_of_grammar second) same

theorem grammar_single : Single (grammar.image Stamp.identity) :=
  identityAt_finds.single.mono fun _ _ _ _ ⟨s,here,is⟩ => ⟨s,taken_of_grammar here,is⟩

/-- The scanner's answer against the grammar's, by what the scanner meets. -/
theorem answers_agree_iff {met proper : List Stamp} (meets : Scans taken (runs bytes) met)
    (stated : Scans grammar (runs bytes) proper) :
    (∀ answer, scanFamilyIdentity bytes = some answer ↔ ∃ found identity, Scans grammar (runs bytes) found ∧
      Sole identity (found.map Stamp.identity) ∧ answer = identity.text) ↔
    ∀ identity, Sole identity (met.map Stamp.identity) ↔ Sole identity (proper.map Stamp.identity) := by
  have code := scanFamilyIdentity_some (meets.image Stamp.identity)
  have one {found : List Stamp} (scans : Scans grammar (runs bytes) found) :
      found.map Stamp.identity = proper.map Stamp.identity :=
    (scans.image Stamp.identity).unique grammar_single (stated.image Stamp.identity)
  constructor
  · intro agree identity
    constructor
    · intro sole
      obtain ⟨found,other,scans,told,same⟩ := (agree identity.text).mp ((code _).mpr ⟨identity,sole,rfl⟩)
      rw [one scans] at told
      obtain rfl := sole.same_text meets stated told same
      exact told
    · intro told
      obtain ⟨other,sole,same⟩ := (code _).mp ((agree identity.text).mpr ⟨proper,identity,stated,told,rfl⟩)
      obtain rfl := sole.same_text meets stated told same.symm
      exact sole
  · intro same answer
    rw [code]
    constructor
    · rintro ⟨identity,sole,rfl⟩
      exact ⟨proper,identity,stated,(same identity).mp sole,rfl⟩
    · rintro ⟨found,identity,scans,told,rfl⟩
      rw [one scans] at told
      exact ⟨identity,(same identity).mpr told,rfl⟩

end Verdict

def Stamp.Differs (s t : Stamp) : Prop := s.branch ≠ t.branch ∨ s.hash.take 7 ≠ t.hash.take 7

section Agreement

theorem differs_iff (s t : Stamp) : s.Differs t ↔ s.identity ≠ t.identity := by
  unfold Stamp.Differs Stamp.identity
  simp only [ne_eq,Identity.mk.injEq,not_and_or]

/-- Stamps state one identity if no two of them differ. -/
theorem exists_sole_iff (stamps : List Stamp) : (∃ identity, Sole identity (stamps.map Stamp.identity)) ↔
    stamps ≠ [] ∧ ∀ s ∈ stamps, ∀ t ∈ stamps, ¬ s.Differs t := by
  simp only [differs_iff,not_not]
  constructor
  · rintro ⟨identity,some_,same⟩
    have told (s : Stamp) (member : s ∈ stamps) : s.identity = identity := same _ (List.mem_map_of_mem member)
    exact ⟨fun none_ => some_ (by rw [none_,List.map_nil]),fun s inS t inT => (told s inS).trans (told t inT).symm⟩
  · rintro ⟨some_,same⟩
    obtain ⟨s,member⟩ := List.exists_mem_of_ne_nil _ some_
    refine ⟨s.identity,List.ne_nil_of_mem (List.mem_map_of_mem member),fun i inside => ?_⟩
    obtain ⟨t,inT,rfl⟩ := List.mem_map.mp inside
    exact same t inT s member

theorem no_sole_iff (stamps : List Stamp) : (∀ identity, ¬ Sole identity (stamps.map Stamp.identity)) ↔
    stamps = [] ∨ ∃ s ∈ stamps, ∃ t ∈ stamps, s.Differs t := by
  rw [← not_exists,exists_sole_iff,not_and_or,not_not]
  push Not
  rfl

/-- Two lists of stamps state the same if no two of both differ. -/
theorem both_sole_iff (some_ : met ≠ []) (proper : List Stamp) :
    (∃ identity, Sole identity (met.map Stamp.identity) ∧ Sole identity (proper.map Stamp.identity)) ↔
      proper ≠ [] ∧ ∀ s ∈ met ++ proper, ∀ t ∈ met ++ proper, ¬ s.Differs t := by
  have all : met ++ proper ≠ [] := List.append_ne_nil_of_left_ne_nil some_ proper
  constructor
  · rintro ⟨identity,⟨_,first⟩,told,second⟩
    refine ⟨fun none_ => told (by rw [none_,List.map_nil]),((exists_sole_iff _).mp ⟨identity,?_,?_⟩).2⟩
    · simpa using all
    · intro i member
      rw [List.map_append,List.mem_append] at member
      exact member.elim (first i) (second i)
  · rintro ⟨told,same⟩
    obtain ⟨identity,_,one⟩ := (exists_sole_iff _).mpr ⟨all,same⟩
    rw [List.map_append] at one
    refine ⟨identity,⟨?_,fun i member => one i (List.mem_append_left _ member)⟩,?_,fun i member => one i (List.mem_append_right _ member)⟩
    · simpa using some_
    · simpa using told

/-- Where the scanner meets nothing, nothing is stated. -/
theorem stated_of_nothing_met {proper : List Stamp} (meets : Scans taken (runs bytes) []) (stated : Scans grammar (runs bytes) proper) :
    proper = [] := by
  have none_ : Scans grammar (runs bytes) [] :=
    meets.narrow (fun _ _ _ _ => taken_of_grammar) fun _ _ _ s member _ => absurd member List.not_mem_nil
  have same := (stated.image Stamp.identity).unique grammar_single (none_.image Stamp.identity)
  simpa using same

end Agreement

/-- The scanner answers with the identity that all stamps in the runs state, and with none if
there is none or they differ, if and only if it meets no stamp whose last digits are missing or
whose hash is too long; or there is a proper stamp and, of those it meets and the proper ones, no
two differ in the branch or in the first seven digits; or two of those it meets do, and there is
no proper stamp or two of these do as well. -/
theorem identity_grammar_iff (bytes : List UInt8) :
    (∀ answer, scanFamilyIdentity bytes = some answer ↔ ∃ found identity, Scans grammar (runs bytes) found ∧
      Sole identity (found.map Stamp.identity) ∧ answer = identity.text) ↔
    ∃ met proper, Scans taken (runs bytes) met ∧ Scans grammar (runs bytes) proper ∧
      ((∀ s ∈ met, s.patch ≠ [] ∧ s.hash.length ≤ 40) ∨
        (proper ≠ [] ∧ ∀ s ∈ met ++ proper, ∀ t ∈ met ++ proper, ¬ s.Differs t) ∨
        (∃ s ∈ met, ∃ t ∈ met, s.Differs t) ∧ (proper = [] ∨ ∃ s ∈ proper, ∃ t ∈ proper, s.Differs t)) := by
  constructor
  · intro agree
    obtain ⟨met,meets⟩ := exists_scans taken (runs bytes)
    obtain ⟨proper,stated⟩ := exists_scans grammar (runs bytes)
    have same := (answers_agree_iff meets stated).mp agree
    refine ⟨met,proper,meets,stated,?_⟩
    by_cases nothing : met = []
    · subst nothing
      exact .inl fun s member => absurd member List.not_mem_nil
    · right
      by_cases sole : ∃ identity, Sole identity (met.map Stamp.identity)
      · obtain ⟨identity,sole⟩ := sole
        exact .inl ((both_sole_iff nothing proper).mp ⟨identity,sole,(same identity).mp sole⟩)
      · have others : ∀ identity, ¬ Sole identity (proper.map Stamp.identity) :=
          fun identity told => sole ⟨identity,(same identity).mpr told⟩
        exact .inr ⟨((no_sole_iff met).mp (not_exists.mp sole)).resolve_left nothing,(no_sole_iff proper).mp others⟩
  · rintro ⟨met,proper,meets,stated,clean | ⟨told,one⟩ | ⟨differ,others⟩⟩
    · have narrow : Scans grammar (runs bytes) met := by
        refine meets.narrow (fun _ _ _ _ => taken_of_grammar) ?_
        exact fun before piece rest s member here => grammar_of_taken here (clean s member)
      exact (answers_agree_iff meets narrow).mpr fun _ => Iff.rfl
    · have nothing : met ≠ [] := by
        rintro rfl
        exact told (stated_of_nothing_met meets stated)
      obtain ⟨identity,sole,told⟩ := (both_sole_iff nothing proper).mpr ⟨told,one⟩
      refine (answers_agree_iff meets stated).mpr fun other => ?_
      have only {all : List Identity} (here : Sole identity all) : Sole other all ↔ other = identity := by
        constructor
        · intro there
          obtain ⟨i,member⟩ := List.exists_mem_of_ne_nil _ here.1
          exact (there.2 i member).symm.trans (here.2 i member)
        · rintro rfl
          exact here
      rw [only sole,only told]
    · have none_ := (no_sole_iff met).mpr (.inr differ)
      have neither := (no_sole_iff proper).mpr others
      exact (answers_agree_iff meets stated).mpr fun identity => iff_of_false (none_ identity) (neither identity)

def ascii (s : String) : List UInt8 := s.toList.map fun c => UInt8.ofNat c.toNat

example : scanFamilyIdentity (ascii "\x00 0.1.0 feat/landing::770f625 \x01") = some (ascii "feat/landing:770f625") := by
  decide +kernel

section LongHash

def mayStart (before : Option UInt8) (x : UInt8) : Bool := isDigit x && !before.any fun b => isDigit b || b = 46

def hasStart : Option UInt8 → List UInt8 → Bool
  | _, [] => false
  | before, x :: text => mayStart before x || hasStart (some x) text

theorem mayStart_of_grammar (here : grammar before (x :: piece) rest s) : mayStart before x = true := by
  obtain ⟨free,formed,_,is,_⟩ := here
  obtain ⟨first,digits,shown⟩ := List.exists_cons_of_ne_nil formed.major.1
  have same : x = first := by
    rw [Stamp.front,shown] at is
    exact (List.cons.inj is).1
  have digit : isDigit x = true := formed.major.2 x (by rw [shown,same]; exact List.mem_cons_self)
  simp [mayStart,digit,(free_iff before).mpr free]

theorem scan_of_no_start (none_ : hasStart before text = false) : Scan grammar before text [] := by
  induction text generalizing before with
  | nil => exact .done
  | cons x text ih =>
    obtain ⟨here,later⟩ := Bool.or_eq_false_iff.mp none_
    refine .skip (fun piece rest s _ stamp => ?_) (ih later)
    rw [mayStart_of_grammar stamp] at here
    contradiction

def longHash : List UInt8 := ascii "0.1.0 main:" ++ List.replicate 41 97

theorem longHash_states_nothing : Scans grammar (runs longHash) [] := by
  have one : runs longHash = [longHash] := by decide +kernel
  rw [one]
  refine .cons (.skip ?_ (scan_of_no_start (by decide +kernel))) .nil
  rintro piece rest s cut ⟨free,formed,⟨_,short⟩,is,ends⟩
  -- what follows the hash is the 41st digit
  have whole : longHash = s.front ++ (s.hash ++ rest) := by
    rw [← List.append_assoc,← is,List.cons_append,← cut]
    rfl
  have found := (identityAt_some none longHash).mpr ⟨s,rest,free,formed,whole,ends,rfl,rfl⟩
  have fixed : identityAt none longHash = some (⟨ascii "main",List.replicate 7 97⟩,50) := by decide +kernel
  have place := (Prod.mk.inj (Option.some.inj (fixed.symm.trans found))).2
  have size : longHash.length = 52 := by decide
  rw [List.drop_eq_nil_of_le short,List.nil_append,size] at place
  have last : rest = longHash.drop 51 := by
    have split_ := congrArg List.length whole
    rw [size,List.length_append,List.length_append] at split_
    have front : (s.front ++ s.hash).length = 51 := by
      rw [List.length_append]
      omega
    rw [whole,← List.append_assoc,← front]
    exact List.drop_left.symm
  rw [last] at ends
  exact absurd (ends 97 (by decide)) (by decide)

/-- The first forty of its 41 digits are taken for the hash. -/
theorem longHash_answered : ¬ ∀ bytes answer, scanFamilyIdentity bytes = some answer ↔
    ∃ found identity, Scans grammar (runs bytes) found ∧ Sole identity (found.map Stamp.identity) ∧
      answer = identity.text := by
  intro agree
  have answered : scanFamilyIdentity longHash = some (ascii "main:aaaaaaa") := by decide +kernel
  obtain ⟨found,identity,scans,told,_⟩ := (agree longHash _).mp answered
  have none_ := (scans.image Stamp.identity).unique grammar_single (longHash_states_nothing.image Stamp.identity)
  exact told.1 none_

end LongHash

end Malkuth.FamilyIdentity
