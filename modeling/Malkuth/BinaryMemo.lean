import Malkuth.Encoders
import Malkuth.FamilyIdentity
import Malkuth.StampedMemo

/-! `collect_binary_info` of `info_page.rs`, called by any number of renders at once while the
binaries are replaced. A file is taken to be put in place as a whole, so that what is read of it
is the content of one file; SHA-256 and the formatting of local times are parameters. -/
namespace Malkuth.BinaryMemo

open Transition StampedMemo InfoPage FamilyIdentity

/-- A binary: `mtime` is in nanoseconds from the Unix epoch. -/
structure BinaryFile where
  mtime : Int
  bytes : List UInt8
  deriving DecidableEq, Repr

/-- What a match of the memo goes by: `metadata.modified()` and `metadata.len()`. -/
def BinaryFile.stamp (f : BinaryFile) : Int × Nat := (f.mtime,f.bytes.length)

structure BinaryInfo where
  name : List Char
  path : List Char
  compileTime : List Char
  hash : List Char
  hashShort : List Char
  deriving DecidableEq, Repr

/-- `Path::file_name`: the last component, unless it is `..` or there is none. -/
def fileName (program : List Char) : Option (List Char) :=
  match ((program.splitOn '/').filter fun piece => piece ≠ [] ∧ piece ≠ ['.']).getLast? with
  | some ['.','.'] => none
  | last => last

structure Platform where
  sha256 : List UInt8 → List UInt8
  /-- The local time of these seconds, as `%Y-%m-%d %H:%M:%S`. -/
  localTime : Nat → List Char

def Platform.compileTime (os : Platform) (mtime : Int) : List Char :=
  if 0 ≤ mtime then os.localTime (mtime.toNat / 1000000000) else "unknown".toList

/-- `compute_file_hash`; the alphabet is never indexed out of bounds. -/
def Platform.computeFileHash (os : Platform) (bytes : List UInt8) : List Char := (base32Encode (os.sha256 bytes)).getD []

def lastSix (hash : List Char) : List Char :=
  let trimmed := (hash.reverse.dropWhile (· = '=')).reverse
  if 6 < trimmed.length then trimmed.drop (trimmed.length - 6) else trimmed

/-- The identity, or else the fingerprint, with its short form. -/
def Platform.hashes (os : Platform) (bytes : List UInt8) : List Char × List Char :=
  match scanFamilyIdentity bytes with
  | some stamp =>
    let text := stamp.map fun b => Char.ofNat b.toNat
    (text,text)
  | none => (os.computeFileHash bytes,lastSix (os.computeFileHash bytes))

def Platform.info (os : Platform) (program : List Char) (seen : Int × Nat) (f : BinaryFile) : BinaryInfo :=
  ⟨(fileName program).getD program,program,os.compileTime seen.1,(os.hashes f.bytes).1,(os.hashes f.bytes).2⟩

abbrev Renders := Store (List Char) BinaryFile (Int × Nat) BinaryInfo

def step (os : Platform) : Renders → StampedMemo.Event (List Char) BinaryFile → Option Renders :=
  Store.step BinaryFile.stamp os.info

/-- The hash of a file never fails. -/
theorem computeFileHash_encodes (os : Platform) (bytes : List UInt8) :
    base32Encode (os.sha256 bytes) = some (os.computeFileHash bytes) := by
  obtain ⟨text,encoded,_⟩ := base32Encode_encodes (os.sha256 bytes)
  rw [Platform.computeFileHash,encoded]
  rfl

/-- However renders and deploys interleave, as long as a deploy never brings back an old pair of
modification time and length: the info that a call returns has the compile time of a file that was
in place after the call began, and the hash of one that was, though it may come from the memo of
another call; and it returns nothing only if the file was missing for a moment. -/
theorem collect_linearizable (os : Platform) (run : Run (step os) .empty (front ++ c :: past) s)
    (fresh : ∀ t ∈ front ++ c :: past, Fresh BinaryFile.stamp t.pre t.event) (called : c.event = .call i program)
    (own : ∀ t ∈ past, t.event.caller ≠ some i) (done : s.tasks i = .done program answer) :
    (∀ info, answer = some info → ∃ w ∈ c :: past, ∃ w' ∈ c :: past, ∃ stat read,
      w.post.files program = some stat ∧ w'.post.files program = some read ∧ info = os.info program stat.stamp read) ∧
    (answer = none → ∃ w ∈ c :: past, w.post.files program = none) ∧
    ∀ file, (∀ w ∈ c :: past, w.post.files program = some file) → answer = some (os.info program file.stamp file) := by
  have within := (answer_within run fresh called own done).2
  refine ⟨?_,?_,fun file still => ?_⟩
  · rintro info rfl
    obtain ⟨seen,⟨w,member,stat,here,rfl⟩,w',member',read,there,same⟩ := within
    exact ⟨w,member,w',member',stat,read,here,there,same⟩
  · rintro rfl
    exact within
  · cases answer with
    | none =>
      obtain ⟨w,member,gone⟩ := within
      simp [still w member] at gone
    | some info =>
      obtain ⟨seen,⟨w,member,stat,here,rfl⟩,w',member',read,there,rfl⟩ := within
      obtain rfl := Option.some.inj ((still w member).symm.trans here)
      obtain rfl := Option.some.inj ((still w' member').symm.trans there)
      rfl

def plainPlatform : Platform := ⟨id,fun secs => (toString secs).toList⟩

def identified (identity : String) : List UInt8 := [0] ++ (" 0.1.0 " ++ identity ++ " ").toList.map (fun c => UInt8.ofNat c.toNat) ++ [1]

def firstBuild : BinaryFile := ⟨1000000000,identified "master:c350cb4"⟩
def secondBuild : BinaryFile := ⟨2000000000,identified "master:1111111"⟩

/-- A deploy in the middle of a call: it has the time of the first build and the hash of the second. -/
theorem collect_linearizable_deployed : ∃ past s, Run (step plainPlatform) .empty past s ∧
    ∃ info, s.tasks 0 = .done "bin/app".toList (some info) ∧ ∃ w ∈ past, ∃ w' ∈ past, ∃ stat read,
      w.post.files "bin/app".toList = some stat ∧ w'.post.files "bin/app".toList = some read ∧
        info = plainPlatform.info "bin/app".toList stat.stamp read := by
  obtain ⟨before,c,after,s,run,called,done,fresh,own⟩ := exists_run_cut (step plainPlatform) .empty
    [.replace "bin/app".toList firstBuild] (.call 0 "bin/app".toList)
    [.move 0,.replace "bin/app".toList secondBuild,.move 0,.move 0,.move 0]
    (fun before c after s => s.tasks 0 = .done "bin/app".toList (some (plainPlatform.info "bin/app".toList firstBuild.stamp secondBuild)) ∧
      (∀ t ∈ before ++ c :: after, Fresh BinaryFile.stamp t.pre t.event) ∧ ∀ t ∈ after, t.event.caller ≠ some 0)
    (by decide +kernel)
  obtain ⟨w,member,w',member',stat,read,here,there,same⟩ := (collect_linearizable plainPlatform run fresh called own done).1 _ rfl
  exact ⟨_,s,run,_,done,w,List.mem_append_right _ member,w',List.mem_append_right _ member',stat,read,here,there,same⟩

end Malkuth.BinaryMemo
