import Malkuth.Singleton

/-! The metadata of `bin/malkuth/singleton.rs` as its lock file holds it: five lines, with no
escapes for what stands in the paths. -/
namespace Malkuth.Singleton

open Text

theorem show_clean (t : SystemTime) (other : c.isDigit = false) (dot : c ≠ '.') : c ∉ t.show := by
  simp [SystemTime.show,not_mem_display _ other,dot]

theorem parseTime_show (t : SystemTime) : parseTime t.show = .ok (some t) := by
  have cut := splitOnce_append '.' (display t.secs) (display t.nanos) (not_mem_display _ rfl)
  have range := t.range
  have subsec := t.subsec
  have secs : parseUnsigned (2^64) (display t.secs) = some t.secs := parseUnsigned_display (by omega)
  have nanos : parseUnsigned (2^32) (display t.nanos) = some t.nanos := parseUnsigned_display (by omega)
  have none_ : t.nanos / 1000000000 = 0 := Nat.div_eq_of_lt subsec
  have kept : t.nanos % 1000000000 = t.nanos := Nat.mod_eq_of_lt subsec
  have fits : t.secs < 2^64 := by omega
  simp only [parseTime,SystemTime.show,cut,secs,nanos,none_,kept,Nat.add_zero,if_pos fits,dif_pos range]

def LockMeta.header (m : LockMeta) : List Char :=
  display m.pid ++ '\n' :: (m.createdAt.show ++ '\n' :: (m.buildMtime.show ++ ['\n']))

theorem serialize_eq (m : LockMeta) : m.serialize = m.header ++ (m.binaryPath ++ '\n' :: m.workingDir) := by
  simp [LockMeta.serialize,LockMeta.header]

theorem count_header (m : LockMeta) : m.header.count '\n' = 3 := by
  have pid := List.count_eq_zero_of_not_mem (not_mem_display m.pid (c := '\n') rfl)
  have time (t : SystemTime) := List.count_eq_zero_of_not_mem (show_clean t (c := '\n') rfl (by decide))
  simp [LockMeta.header,pid,time]

theorem lines_header (m : LockMeta) (rest : List Char) :
    lines (m.header ++ rest) = display m.pid :: m.createdAt.show :: m.buildMtime.show :: lines rest := by
  have text : m.header ++ rest =
      display m.pid ++ '\n' :: (m.createdAt.show ++ '\n' :: (m.buildMtime.show ++ '\n' :: rest)) := by
    simp [LockMeta.header]
  rw [text,lines_line _ _ (not_mem_display _ rfl),lines_line _ _ (show_clean _ rfl (by decide)),
    lines_line _ _ (show_clean _ rfl (by decide)),chomp_digits _ (not_mem_display _ rfl),
    chomp_digits _ (show_clean _ rfl (by decide)),chomp_digits _ (show_clean _ rfl (by decide))]

theorem trimList_serialize (m : LockMeta) : trimList m.serialize = trimEnd (m.header ++ (m.binaryPath ++ '\n' :: m.workingDir)) := by
  obtain ⟨c,cs,shown,digit⟩ := display_head m.pid
  rw [serialize_eq,LockMeta.header,shown]
  exact trimList_cons c _ (isWhitespace_digit digit)

/-- What is read of text with the right first lines. -/
theorem deserialize_lines (m : LockMeta) (bound : m.pid < 2^32) (raw : List Char)
    (shown : lines (trimList raw) = display m.pid :: m.createdAt.show :: m.buildMtime.show :: path :: dir :: more) :
    LockMeta.deserialize raw = .ok (some ⟨m.pid,m.createdAt,m.buildMtime,path,dir⟩) := by
  simp only [LockMeta.deserialize,shown]
  rw [parseUnsigned_display bound,parseTime_show,parseTime_show]
  rfl

/-- What is read stands in the text as the fourth and fifth line. -/
theorem deserialize_paths (raw : List Char) (read : LockMeta.deserialize raw = .ok (some m)) :
    ∃ pid created build more, lines (trimList raw) = pid :: created :: build :: m.binaryPath :: m.workingDir :: more := by
  unfold LockMeta.deserialize at read
  split at read
  next pid created build path dir more shown =>
    split at read
    · simp at read
    · simp only [bind,Except.bind] at read
      split at read
      · cases read
      · split at read
        · split at read
          · cases read
          · split at read
            · obtain rfl := Option.some.inj (Except.ok.inj read)
              exact ⟨_,_,_,_,shown⟩
            · simp [pure,Except.pure] at read
        · simp [pure,Except.pure] at read
  · simp at read

theorem lines_serialize (m : LockMeta) (named : ∃ c ∈ m.workingDir, isWhitespace c = false) : lines (trimList m.serialize) =
    display m.pid :: m.createdAt.show :: m.buildMtime.show :: lines (m.binaryPath ++ '\n' :: trimEnd m.workingDir) := by
  have trimmed := (trimEnd_append (m.header ++ (m.binaryPath ++ ['\n'])) m.workingDir named).2
  simp only [List.append_assoc,List.singleton_append] at trimmed
  rw [trimList_serialize,trimmed,lines_header]

/-- Metadata reads back with its pid and build, if the working directory is not blank: else the
text has too few lines. -/
theorem deserialize_serialize (m : LockMeta) (bound : m.pid < 2^32)
    (named : ∃ c ∈ m.workingDir, isWhitespace c = false) :
    ∃ path dir, LockMeta.deserialize m.serialize = .ok (some ⟨m.pid,m.createdAt,m.buildMtime,path,dir⟩) := by
  obtain ⟨path,dir,more,rest⟩ := two_lines m.binaryPath (trimEnd m.workingDir) (trimEnd_append [] _ named).1
  exact ⟨path,dir,deserialize_lines m bound _ (rest ▸ lines_serialize m named)⟩

structure LockMeta.Plain (m : LockMeta) : Prop where
  path : '\n' ∉ m.binaryPath
  pathEnd : m.binaryPath.getLast? ≠ some '\r'
  dir : '\n' ∉ m.workingDir
  dirEnd : ∃ c, m.workingDir.getLast? = some c ∧ isWhitespace c = false

theorem deserialize_plain (m : LockMeta) (bound : m.pid < 2^32) (plain : m.Plain) :
    LockMeta.deserialize m.serialize = .ok (some m) := by
  obtain ⟨c,last,solid⟩ := plain.dirEnd
  have some_ : m.workingDir ≠ [] := by
    intro none_
    simp [none_] at last
  have whole : trimEnd m.workingDir = m.workingDir := by
    rw [trimEnd_eq_self_iff]
    intro d end_
    rw [last] at end_
    exact Option.some.inj end_ ▸ solid
  have shown := lines_serialize m ⟨c,List.mem_of_getLast? last,solid⟩
  rw [whole,lines_line _ _ plain.path,(chomp_line _).mpr plain.pathEnd,lines_last _ plain.dir some_] at shown
  exact deserialize_lines m bound _ shown

/-- Metadata that is read back needs all of its four line feeds. -/
theorem named_of_read (m : LockMeta) (path : '\n' ∉ m.binaryPath) (long : 5 ≤ (lines (trimList m.serialize)).length) :
    ∃ c ∈ m.workingDir, isWhitespace c = false := by
  by_contra blank
  push Not at blank
  have feed : ∀ c ∈ '\n' :: m.workingDir, isWhitespace c = true := by
    intro c member
    rcases List.mem_cons.mp member with rfl | inside
    · rfl
    · simpa using blank c inside
  have trimmed := trimEnd_blank (m.header ++ m.binaryPath) ('\n' :: m.workingDir) feed
  rw [List.append_assoc] at trimmed
  rw [trimList_serialize,trimmed] at long
  have feeds : (trimEnd (m.header ++ m.binaryPath)).count '\n' ≤ 3 :=
    calc (trimEnd (m.header ++ m.binaryPath)).count '\n'
      _ ≤ (m.header ++ m.binaryPath).count '\n' := (List.rdropWhile_prefix ..).sublist.count_le _
      _ = 3 := by rw [List.count_append,count_header,List.count_eq_zero_of_not_mem path]
  have few := length_lines (trimEnd (m.header ++ m.binaryPath))
  omega

theorem plain_of_deserialize (m : LockMeta) (read : LockMeta.deserialize m.serialize = .ok (some m)) : m.Plain := by
  obtain ⟨pid,created,build,more,shown⟩ := deserialize_paths _ read
  have path : '\n' ∉ m.binaryPath := clean_of_mem_lines (trimList m.serialize) _ (by simp [shown])
  have dir : '\n' ∉ m.workingDir := clean_of_mem_lines (trimList m.serialize) _ (by simp [shown])
  have named := named_of_read m path (by simp [shown])
  rw [lines_serialize m named,lines_line _ _ path] at shown
  obtain ⟨some_,_⟩ := trimEnd_append [] m.workingDir named
  have short : '\n' ∉ trimEnd m.workingDir := fun inside => dir ((List.rdropWhile_prefix ..).subset inside)
  rw [lines_last _ short some_] at shown
  simp only [List.cons.injEq] at shown
  obtain ⟨_,_,_,line,whole,_⟩ := shown
  refine ⟨path,(chomp_line _).mp line,dir,?_⟩
  rw [whole] at some_
  refine ⟨_,List.getLast?_eq_some_getLast some_,?_⟩
  exact (trimEnd_eq_self_iff _).mp whole _ (List.getLast?_eq_some_getLast some_)

/-- Metadata is read back as it was written, with the pid and the build of its process, if and
only if neither path holds a line feed, the first does not end in a carriage return and the
second ends in a character that is not white space. -/
theorem meta_round_trip_iff (m : LockMeta) (bound : m.pid < 2^32) :
    (LockMeta.deserialize m.serialize = .ok (some m) ∧
      ∃ old, readMeta m.serialize = .ok old ∧ old.pid = m.pid ∧ old.buildMtime = m.buildMtime) ↔ m.Plain := by
  constructor
  · exact fun back => plain_of_deserialize m back.1
  · intro plain
    have read := deserialize_plain m bound plain
    refine ⟨read,m,?_,rfl,rfl⟩
    rw [readMeta,read]
    rfl

def built : SystemTime := ⟨1700000000,5,by decide,by decide⟩

def rooted : LockMeta := ⟨7,.unixEpoch,built,"/usr/bin/malkuth".toList,['/']⟩
def homeless : LockMeta := { rooted with workingDir := [] }

theorem meta_round_trip_rooted : LockMeta.deserialize rooted.serialize = .ok (some rooted) :=
  ((meta_round_trip_iff rooted (by decide)).mpr ⟨by decide,by decide,by decide,'/',by decide,by decide⟩).1

/-- `current_dir().unwrap_or_default()` leaves a blank line, which is trimmed away: the lock of a
live process reads as that of pid 0. -/
theorem homeless_lost : ¬ ∀ m : LockMeta, m.pid < 2^32 → LockMeta.deserialize m.serialize = .ok (some m) ∧
    ∃ old, readMeta m.serialize = .ok old ∧ old.pid = m.pid ∧ old.buildMtime = m.buildMtime := by
  intro holds
  exact absurd (holds homeless (by decide)).1 (by decide +kernel)

end Malkuth.Singleton
