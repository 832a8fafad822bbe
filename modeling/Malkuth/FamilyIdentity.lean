import Malkuth.Occurrences

/-! How `info_page.rs` reads the build identity out of a binary: `scan_family_identity` looks for
`<x.y.z> <branch>:<hash>` in the runs of printable ASCII. A `str` is its bytes, and an index into
a run is the part of the run from there on. -/
namespace Malkuth.FamilyIdentity

open Occurrences

def isDigit (b : UInt8) : Bool := 48 ≤ b && b ≤ 57

def isAlphanumeric (b : UInt8) : Bool := isDigit b || (65 ≤ b && b ≤ 90) || (97 ≤ b && b ≤ 122)

def isPrintable (b : UInt8) : Bool := 32 ≤ b && b ≤ 126

def isBranchByte (b : UInt8) : Bool := isAlphanumeric b || b = 46 || b = 95 || b = 47 || b = 45

def isHexByte (b : UInt8) : Bool := isDigit b || (97 ≤ b && b ≤ 102)

structure Identity where
  branch : List UInt8
  hash7 : List UInt8
  deriving DecidableEq, Repr

def Identity.text (identity : Identity) : List UInt8 := identity.branch ++ 58 :: identity.hash7

/-- The loop of `match_version_base`: the dots, and what is left. -/
def versionLoop : Nat → List UInt8 → Nat × List UInt8
  | dots, [] => (dots,[])
  | dots, b :: rest =>
    if isDigit b then
      match rest with
      | [] => (dots,[])
      | d :: more => if d = 46 ∧ dots < 2 then versionLoop (dots + 1) more else versionLoop dots (d :: more)
    else (dots,b :: rest)

def matchVersionBase (text : List UInt8) : Option (List UInt8) :=
  let (dots,rest) := versionLoop 0 text
  if dots = 2 ∧ 1 < text.length - rest.length ∧ rest.head? ≠ some 46 then some rest else none

def skipColon : List UInt8 → List UInt8
  | 58 :: rest => rest
  | rest => rest

/-- From the hash on: the identity, and how far behind the place it ends, less one. -/
def hashAt (text branch k : List UInt8) : Option (Identity × Nat) :=
  let hash := (k.takeWhile isHexByte).take 40
  if hash.length < 7 ∨ 40 < hash.length then none
  else some (⟨branch,hash.take 7⟩,text.length - (k.drop hash.length).length - 1)

/-- From the branch on. -/
def branchAt (text branchStart : List UInt8) : Option (Identity × Nat) :=
  let branch := branchStart.takeWhile isBranchByte
  let j := branchStart.dropWhile isBranchByte
  let k := skipColon (skipColon j)
  if branch = [] ∨ j.length ≤ 1 then none
  else if k.length = j.length ∨ k.head?.all (fun b => !isHexByte b) then none
  else hashAt text branch k

/-- The body of the loop of `scan_ascii_run`; `none` goes on to the next place. -/
def identityAt (before : Option UInt8) (text : List UInt8) : Option (Identity × Nat) :=
  if text.head?.all (fun b => !isDigit b) ∨ before.any fun b => isDigit b || b = 46 then none
  else (matchVersionBase text).bind fun afterBase =>
    if afterBase.head? ≠ some 32 then none else branchAt text afterBase.tail

def addNew (identities : List Identity) (identity : Identity) : List Identity :=
  if identities.contains identity then identities else identities ++ [identity]

def scanAsciiRun (run : List UInt8) (identities : List Identity) : List Identity :=
  (scan identityAt none 0 run).foldl addNew identities

/-- The state of the loop over the bytes: the run so far, and the identities. -/
def flush (run : List UInt8) (identities : List Identity) : List UInt8 × List Identity :=
  if run = [] then (run,identities) else ([],scanAsciiRun run identities)

def takeByte (state : List UInt8 × List Identity) (b : UInt8) : List UInt8 × List Identity :=
  if isPrintable b then (state.1 ++ [b],state.2) else flush state.1 state.2

def scanFamilyIdentity (bytes : List UInt8) : Option (List UInt8) :=
  let (run,identities) := bytes.foldl takeByte ([],[])
  match (flush run identities).2 with
  | [identity] => some identity.text
  | _ => none

section Version

/-- The loop takes the digits, and a dot behind them if it may. -/
theorem versionLoop_digits (dots : Nat) (digits rest : List UInt8) (all : ∀ b ∈ digits, isDigit b = true)
    (ends : ∀ b ∈ rest.head?, isDigit b = false) : versionLoop dots (digits ++ rest) =
      if digits ≠ [] ∧ rest.head? = some 46 ∧ dots < 2 then versionLoop (dots + 1) rest.tail else (dots,rest) := by
  have stop : versionLoop dots rest = (dots,rest) := by
    cases rest with
    | nil => rfl
    | cons b rest =>
      rw [versionLoop.eq_def]
      simp [ends b rfl]
  induction digits with
  | nil => simpa using stop
  | cons d digits ih =>
    obtain ⟨digit,others⟩ := List.forall_mem_cons.mp all
    rw [List.cons_append,versionLoop.eq_def]
    simp only [digit,if_true]
    cases digits with
    | nil =>
      cases rest with
      | nil => simp
      | cons b rest => by_cases dot : b = 46 <;> by_cases few : dots < 2 <;> simp_all
    | cons e digits =>
      have plain : ¬ (e = 46 ∧ dots < 2) := by
        rintro ⟨rfl,_⟩
        simp [isDigit] at others
      simp only [List.cons_append,if_neg plain]
      simpa using ih others

theorem versionLoop_eq (dots : Nat) (text : List UInt8) : versionLoop dots text =
    if text.takeWhile isDigit ≠ [] ∧ (text.dropWhile isDigit).head? = some 46 ∧ dots < 2 then
      versionLoop (dots + 1) (text.dropWhile isDigit).tail
    else (dots,text.dropWhile isDigit) := by
  have whole := versionLoop_digits dots (text.takeWhile isDigit) (text.dropWhile isDigit)
    (fun b member => List.mem_takeWhile_imp member) (dropWhile_ends isDigit text)
  rwa [List.takeWhile_append_dropWhile] at whole

/-- One group of digits with its dot. -/
theorem versionLoop_peel (looped : versionLoop dots text = (dots',rest)) (more : dots < dots') :
    ∃ digits text', text = digits ++ 46 :: text' ∧ (digits ≠ [] ∧ ∀ b ∈ digits, isDigit b = true) ∧
      versionLoop (dots + 1) text' = (dots',rest) := by
  rw [versionLoop_eq] at looped
  split at looped
  next here =>
    obtain ⟨text',shown⟩ := List.head?_eq_some_iff.mp here.2.1
    refine ⟨text.takeWhile isDigit,text',?_,⟨here.1,fun b member => List.mem_takeWhile_imp member⟩,?_⟩
    · rw [← shown,List.takeWhile_append_dropWhile]
    · rwa [shown] at looped
  next =>
    obtain ⟨same,_⟩ := Prod.mk.inj looped
    omega

theorem matchVersionBase_some : matchVersionBase text = some rest ↔ ∃ major minor patch,
    text = major ++ 46 :: (minor ++ 46 :: (patch ++ rest)) ∧ (major ≠ [] ∧ ∀ b ∈ major, isDigit b = true) ∧
    (minor ≠ [] ∧ ∀ b ∈ minor, isDigit b = true) ∧ (∀ b ∈ patch, isDigit b = true) ∧
    (∀ b ∈ rest.head?, isDigit b = false) ∧ rest.head? ≠ some 46 := by
  have dot (more : List UInt8) : ∀ b ∈ (46 :: more).head?, isDigit b = false := by
    intro b first
    obtain rfl := Option.some.inj first
    decide
  constructor
  · intro matched
    simp only [matchVersionBase] at matched
    obtain ⟨⟨two,_,plain⟩,is⟩ := Option.ite_some_none_eq_some.mp matched
    have looped : versionLoop 0 text = (2,rest) := Prod.ext two is
    obtain ⟨major,text',rfl,majors,looped⟩ := versionLoop_peel looped (by decide)
    obtain ⟨minor,text',rfl,minors,looped⟩ := versionLoop_peel looped (by decide)
    rw [versionLoop_eq,if_neg (by simp)] at looped
    obtain ⟨_,rfl⟩ := Prod.mk.inj looped
    refine ⟨major,minor,text'.takeWhile isDigit,?_,majors,minors,?_,dropWhile_ends isDigit text',by rwa [is] at plain⟩
    · rw [List.takeWhile_append_dropWhile]
    · exact fun b member => List.mem_takeWhile_imp member
  · rintro ⟨major,minor,patch,rfl,⟨some_,majors⟩,⟨some_',minors⟩,patches,ends,plain⟩
    have loop : versionLoop 0 (major ++ 46 :: (minor ++ 46 :: (patch ++ rest))) = (2,rest) := by
      rw [versionLoop_digits 0 major _ majors (dot _),if_pos ⟨some_,rfl,by decide⟩,List.tail_cons,
        versionLoop_digits 1 minor _ minors (dot _),if_pos ⟨some_',rfl,by decide⟩,List.tail_cons,
        versionLoop_digits 2 patch _ patches ends,if_neg (by simp)]
    have long : 1 < (major ++ 46 :: (minor ++ 46 :: (patch ++ rest))).length - rest.length := by
      simp only [List.length_append,List.length_cons]
      omega
    rw [matchVersionBase,loop]
    exact if_pos ⟨rfl,long,plain⟩

end Version

end Malkuth.FamilyIdentity
