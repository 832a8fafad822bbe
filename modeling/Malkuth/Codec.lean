import Malkuth.Lines

/-! The NDJSON framing of `codec.rs`. `serde_json` is a parameter: what the codec needs of it
is said in `Documented`. A stream hands over its bytes in the pieces its reads return. -/
namespace Malkuth.Codec

def isAsciiWhitespace (b : UInt8) : Bool := b = 32 || b = 9 || b = 10 || b = 12 || b = 13

def newline : UInt8 := 10

structure SerdeJson (Value Error : Type) where
  null : Value
  toVec : Value → List UInt8
  fromSlice : List UInt8 → Except Error Value

/-- What `serde_json` promises for the values that are sent. -/
structure SerdeJson.Documented (json : SerdeJson Value Error) (sent : List Value) : Prop where
  /-- A newline within a string is escaped, and nothing is pretty-printed. -/
  raw : ∀ v ∈ sent, newline ∉ json.toVec v
  inverts : ∀ v ∈ sent, json.fromSlice (json.toVec v) = .ok v
  /-- White space after the value is ignored. -/
  trailing : ∀ bytes v, json.fromSlice bytes = .ok v → json.fromSlice (bytes ++ [newline]) = .ok v
  /-- White space alone is not a value. -/
  blank : ∀ bytes v, json.fromSlice bytes = .ok v → bytes.all isAsciiWhitespace = false

inductive ReadError (Error : Type) where
  | invalidData (e : Error)
  /-- "connection closed mid-frame". -/
  | unexpectedEof
  /-- A read of the stream fails. -/
  | stream (message : String)
  deriving DecidableEq, Repr

abbrev ReadResult (Value Error : Type) := Except (ReadError Error) (Option Value)

/-- A connection, by what the reads of its stream will return; at their end is the end of
the stream, where every read returns 0. -/
structure FramedConn where
  stream : List (Except String (List UInt8))
  rdBuf : List UInt8

def FramedConn.new (stream : List (Except String (List UInt8))) : FramedConn := ⟨stream,[]⟩

section Frames

variable {Value Error : Type} (json : SerdeJson Value Error)

/-- One complete frame of the buffer, and the buffer without it. -/
def takeFrame (rdBuf : List UInt8) : Option (Except Error Value × List UInt8) := do
  let pos ← rdBuf.idxOf? newline
  let line := rdBuf.take (pos + 1)
  some (if line.all isAsciiWhitespace then .ok json.null else json.fromSlice line,rdBuf.drop (pos + 1))

theorem takeFrame_none (unfinished : newline ∉ rdBuf) : takeFrame json rdBuf = none := by
  simp [takeFrame,List.idxOf?_eq_none_iff.mpr unfinished]

theorem idxOf?_line (content rest : List UInt8) (clean : newline ∉ content) :
    (content ++ newline :: rest).idxOf? newline = some content.length := by
  induction content with
  | nil => simp [List.idxOf?_cons]
  | cons b content ih =>
    obtain ⟨other,clean⟩ := not_or.mp (List.mem_cons.not.mp clean)
    simp [List.idxOf?_cons,beq_eq_false_iff_ne.mpr (Ne.symm other),ih clean]

theorem takeFrame_line (content rest : List UInt8) (clean : newline ∉ content) :
    takeFrame json (content ++ newline :: rest) =
      some (if (content ++ [newline]).all isAsciiWhitespace then .ok json.null
        else json.fromSlice (content ++ [newline]),rest) := by
  have line : (content ++ newline :: rest).take (content.length + 1) = content ++ [newline] := by
    rw [List.append_cons]
    exact List.take_left' (by simp)
  have after : (content ++ newline :: rest).drop (content.length + 1) = rest := by
    rw [List.append_cons]
    exact List.drop_left' (by simp)
  simp only [takeFrame,idxOf?_line content rest clean,Option.bind_eq_bind,Option.bind_some,line,after]

/-- No frame: there is no complete line. -/
theorem takeFrame_unfinished (taken : takeFrame json rdBuf = none) : newline ∉ rdBuf := by
  rcases Lines.exists_line newline rdBuf with unfinished | ⟨content,after,rfl,clean⟩
  · exact unfinished
  · simp [takeFrame_line json content after clean] at taken

/-- A frame: it was the first line. -/
theorem takeFrame_some (taken : takeFrame json rdBuf = some (res,rest)) :
    ∃ content, rdBuf = content ++ newline :: rest ∧ newline ∉ content ∧
      res = if (content ++ [newline]).all isAsciiWhitespace then .ok json.null
        else json.fromSlice (content ++ [newline]) := by
  rcases Lines.exists_line newline rdBuf with unfinished | ⟨content,after,rfl,clean⟩
  · simp [takeFrame_none json unfinished] at taken
  · rw [takeFrame_line json content after clean] at taken
    obtain ⟨rfl,rfl⟩ := Prod.mk.inj (Option.some.inj taken)
    exact ⟨content,rfl,clean,rfl⟩

theorem takeFrame_length (taken : takeFrame json rdBuf = some (res,rest)) : rest.length < rdBuf.length := by
  obtain ⟨content,rfl,_⟩ := takeFrame_some json taken
  simp only [List.length_append,List.length_cons]
  omega

/-- The end of the stream: fine between two frames. -/
def atEof (rdBuf : List UInt8) : ReadResult Value Error :=
  if rdBuf.isEmpty then .ok none else .error .unexpectedEof

def ending (bytes : List UInt8) : ReadResult Value Error := atEof (Lines.split newline bytes).2

theorem ending_line (content rest : List UInt8) (clean : newline ∉ content) :
    (ending (content ++ newline :: rest) : ReadResult Value Error) = ending rest := by
  rw [ending,Lines.split_line newline content rest clean]
  rfl

def writeMsg (sent : List UInt8) (msg : Value) : List UInt8 := sent ++ (json.toVec msg ++ [newline])

theorem written_eq (values : List Value) (before : List UInt8) :
    values.foldl (writeMsg json) before = before ++ values.flatMap fun v => json.toVec v ++ [newline] := by
  induction values generalizing before with
  | nil => simp
  | cons v values ih => simp [ih,writeMsg]

end Frames

section Reading

variable {Value Error : Type} [DecidableEq Value] (json : SerdeJson Value Error)

def readMsg (c : FramedConn) : ReadResult Value Error × FramedConn :=
  match _taken : takeFrame json c.rdBuf with
  | some (.error e,rest) => (.error (.invalidData e),⟨c.stream,rest⟩)
  | some (.ok v,rest) => if v = json.null then readMsg ⟨c.stream,rest⟩ else (.ok (some v),⟨c.stream,rest⟩)
  | none =>
    match _pieces : c.stream with
    | [] => (atEof c.rdBuf,c)
    | .error message :: stream => (.error (.stream message),⟨stream,c.rdBuf⟩)
    | .ok chunk :: stream =>
      if chunk.isEmpty then (atEof c.rdBuf,⟨stream,c.rdBuf⟩) else readMsg ⟨stream,c.rdBuf ++ chunk⟩
  termination_by (c.stream.length,c.rdBuf.length)
  decreasing_by
    · exact Prod.Lex.right _ (takeFrame_length json _taken)
    · exact Prod.Lex.left _ _ (by simp [_pieces])

def readMsgs : Nat → FramedConn → List (ReadResult Value Error)
  | 0, _ => []
  | n + 1, c => (readMsg json c).1 :: readMsgs n (readMsg json c).2

/-- What `read_msg` makes of a frame: `null` is skipped. -/
def outcome : Except Error Value → Option (ReadResult Value Error)
  | .error e => some (.error (.invalidData e))
  | .ok v => if v = json.null then none else some (.ok (some v))

/-- What a complete line is to the reader: nothing, if it is blank or `null`. -/
def frame (line : List UInt8) : Option (ReadResult Value Error) :=
  if line.all isAsciiWhitespace then none else outcome json (json.fromSlice line)

def results (bytes : List UInt8) : List (ReadResult Value Error) :=
  (Lines.split newline bytes).1.filterMap (frame json)

theorem results_line (content rest : List UInt8) (clean : newline ∉ content) :
    results json (content ++ newline :: rest) = (frame json (content ++ [newline])).toList ++ results json rest := by
  rw [results,Lines.split_line newline content rest clean,List.filterMap_cons]
  cases frame json (content ++ [newline]) <;> rfl

theorem results_unfinished (clean : newline ∉ content) : results json content = [] := by
  rw [results,Lines.split_unfinished newline content clean]
  rfl

/-- The bytes a connection has not returned yet: its buffer and its reads, none of which
fails or is empty. -/
def Holds (c : FramedConn) (bytes : List UInt8) : Prop :=
  ∃ chunks : List (List UInt8), c.stream = chunks.map .ok ∧ (∀ chunk ∈ chunks, chunk ≠ []) ∧
    c.rdBuf ++ chunks.flatten = bytes

/-- The bytes after a frame, and what the frame adds to their results. -/
theorem Holds.frame (holds : Holds c bytes) (taken : takeFrame json c.rdBuf = some (res,rest)) :
    ∃ bytes', Holds ⟨c.stream,rest⟩ bytes' ∧ (ending bytes : ReadResult Value Error) = ending bytes' ∧
      results json bytes = (outcome json res).toList ++ results json bytes' := by
  obtain ⟨chunks,stream,nonempty,rfl⟩ := holds
  obtain ⟨content,cut,clean,rfl⟩ := takeFrame_some json taken
  refine ⟨rest ++ chunks.flatten,⟨chunks,stream,nonempty,rfl⟩,?_,?_⟩
  · rw [cut,List.append_assoc,List.cons_append,ending_line content _ clean]
  · rw [cut,List.append_assoc,List.cons_append,results_line json content _ clean,Codec.frame]
    split <;> simp [outcome]

def Answers (bytes : List UInt8) (answer : ReadResult Value Error × FramedConn) : Prop :=
  ∃ bytes', Holds answer.2 bytes' ∧ (ending bytes : ReadResult Value Error) = ending bytes' ∧
    (results json bytes = answer.1 :: results json bytes' ∨
      (results json bytes = [] ∧ results json bytes' = [] ∧ answer.1 = ending bytes))

theorem readMsg_answers (c : FramedConn) (bytes : List UInt8) (holds : Holds c bytes) :
    Answers json bytes (readMsg json c) := by
  fun_induction readMsg json c generalizing bytes with
  | case1 c e rest taken =>
    obtain ⟨bytes',after,same,first⟩ := holds.frame json taken
    exact ⟨bytes',after,same,.inl first⟩
  | case2 c rest taken ih =>
    obtain ⟨bytes',after,same,none_⟩ := holds.frame json taken
    have none_ : results json bytes = results json bytes' := by simpa [outcome] using none_
    unfold Answers
    rw [none_,same]
    exact ih bytes' after
  | case3 c v rest taken some_ =>
    obtain ⟨bytes',after,same,first⟩ := holds.frame json taken
    exact ⟨bytes',after,same,.inl (by simpa [outcome,some_] using first)⟩
  | case4 c taken pieces =>
    have left := holds
    obtain ⟨chunks,stream,_,rfl⟩ := holds
    obtain rfl : chunks = [] := by simpa [pieces] using stream.symm
    have clean := takeFrame_unfinished json taken
    rw [List.flatten_nil,List.append_nil] at left ⊢
    refine ⟨c.rdBuf,left,rfl,.inr ⟨results_unfinished json clean,results_unfinished json clean,?_⟩⟩
    simp [ending,Lines.split_unfinished newline c.rdBuf clean]
  | case5 c taken message stream pieces =>
    obtain ⟨chunks,same,_,_⟩ := holds
    cases chunks <;> simp [pieces] at same
  | case6 c taken chunk stream pieces empty =>
    obtain ⟨chunks,same,nonempty,_⟩ := holds
    cases chunks <;> simp_all
  | case7 c taken chunk stream pieces some_ ih =>
    apply ih bytes
    obtain ⟨chunks,same,nonempty,rfl⟩ := holds
    cases chunks with
    | nil => simp [pieces] at same
    | cons first chunks =>
      obtain ⟨rfl,rfl⟩ : chunk = first ∧ stream = chunks.map .ok := by simpa [pieces] using same
      exact ⟨chunks,rfl,fun later member => nonempty later (List.mem_cons_of_mem _ member),by simp⟩

/-- A fresh connection whose reads return these pieces. -/
theorem holds_new (chunks : List (List UInt8)) (nonempty : ∀ chunk ∈ chunks, chunk ≠ []) :
    Holds (.new (chunks.map .ok)) chunks.flatten :=
  ⟨chunks,rfl,nonempty,rfl⟩

/-- Call by call: the results of the bytes, and then their ending for ever. -/
theorem readMsgs_eq (n : Nat) (c : FramedConn) (bytes : List UInt8) (holds : Holds c bytes) :
    readMsgs json n c = (List.range n).map fun i => (results json bytes).getD i (ending bytes) := by
  induction n generalizing c bytes with
  | zero => rfl
  | succ n ih =>
    obtain ⟨bytes',after,same,answer⟩ := readMsg_answers json c bytes holds
    rw [readMsgs,ih (readMsg json c).2 bytes' after,List.range_succ_eq_map,List.map_cons,List.map_map,same]
    rcases answer with first | ⟨none_,still,last⟩
    · rw [first]
      rfl
    · rw [none_,still,last,same]
      rfl

/-- What a value that was sent is to the reader. -/
theorem frame_sent (documented : json.Documented sent) (member : v ∈ sent) :
    frame json (json.toVec v ++ [newline]) = if v = json.null then none else some (.ok (some v)) := by
  have parsed := documented.trailing _ v (documented.inverts v member)
  rw [frame,documented.blank _ v parsed,parsed]
  rfl

theorem results_written (documented : json.Documented sent) (values : List Value) (all : ∀ v ∈ values, v ∈ sent) :
    results json (values.foldl (writeMsg json) []) =
      (values.filter (· ≠ json.null)).map (fun v => .ok (some v)) ∧
    (ending (values.foldl (writeMsg json) []) : ReadResult Value Error) = .ok none := by
  rw [written_eq,List.nil_append]
  induction values with
  | nil => exact ⟨rfl,rfl⟩
  | cons v values ih =>
    obtain ⟨member,all⟩ := List.forall_mem_cons.mp all
    obtain ⟨frames,ends⟩ := ih all
    have clean := documented.raw v member
    rw [List.flatMap_cons,List.append_assoc,List.singleton_append,results_line json _ _ clean,
      ending_line _ _ clean,frames,frame_sent json documented member]
    refine ⟨?_,ends⟩
    by_cases skipped : v = json.null
    · simp [skipped]
    · simp [skipped]

def Complete (bytes : List UInt8) : Prop := (Lines.split newline bytes).2 = []

theorem results_append (front back : List UInt8) (complete : Complete front) :
    results json (front ++ back) = results json front ++ results json back ∧
    (ending (front ++ back) : ReadResult Value Error) = ending back := by
  rw [results,ending,Lines.split_append newline front back complete,List.filterMap_append]
  exact ⟨rfl,rfl⟩

/-- NDJSON framing, for every way the bytes may be cut into reads. Values that were written
come back in order, without the nulls, and then the end; for any bytes the results are those
of their lines, so they do not depend on the cuts; and a line, malformed or not, has its own
result and changes that of no other line. -/
theorem ndjson_framing :
    (∀ values, json.Documented values → ∀ chunks : List (List UInt8), (∀ chunk ∈ chunks, chunk ≠ []) →
      chunks.flatten = values.foldl (writeMsg json) [] → ∀ n,
      readMsgs json n (.new (chunks.map .ok)) = (List.range n).map fun i =>
        ((values.filter (· ≠ json.null)).map fun v => .ok (some v)).getD i (.ok none)) ∧
    (∀ chunks chunks' : List (List UInt8), (∀ chunk ∈ chunks, chunk ≠ []) → (∀ chunk ∈ chunks', chunk ≠ []) →
      chunks.flatten = chunks'.flatten → ∀ n,
      readMsgs json n (.new (chunks.map .ok)) = readMsgs json n (.new (chunks'.map .ok)) ∧
      readMsgs json n (.new (chunks.map .ok)) = (List.range n).map fun i =>
        (results json chunks.flatten).getD i (ending chunks.flatten)) ∧
    ∀ front content back, Complete front → newline ∉ content →
      results json (front ++ (content ++ newline :: back)) =
        results json front ++ ((frame json (content ++ [newline])).toList ++ results json back) ∧
      (ending (front ++ (content ++ newline :: back)) : ReadResult Value Error) = ending back := by
  refine ⟨?_,?_,?_⟩
  · intro values documented chunks nonempty bytes n
    obtain ⟨frames,ends⟩ := results_written json documented values fun _ member => member
    rw [readMsgs_eq json n _ _ (holds_new chunks nonempty),bytes,frames,ends]
  · intro chunks chunks' nonempty nonempty' same n
    rw [readMsgs_eq json n _ _ (holds_new chunks nonempty),readMsgs_eq json n _ _ (holds_new chunks' nonempty'),same]
    exact ⟨rfl,rfl⟩
  · intro front content back complete clean
    obtain ⟨frames,ends⟩ := results_append json front (content ++ newline :: back) complete
    rw [frames,ends,results_line json content back clean,ending_line content back clean]
    exact ⟨rfl,rfl⟩

end Reading

inductive Literal where
  | null
  | bool (b : Bool)
  deriving DecidableEq, Repr

def isJsonSpace (b : UInt8) : Bool := b = 32 || b = 9 || b = 10 || b = 13

def trimmed (bytes : List UInt8) : List UInt8 :=
  (bytes.reverse.dropWhile isJsonSpace).reverse.dropWhile isJsonSpace

def Literal.bytes : Literal → List UInt8
  | .null => [110,117,108,108]
  | .bool true => [116,114,117,101]
  | .bool false => [102,97,108,115,101]

def literals : SerdeJson Literal String where
  null := .null
  toVec := Literal.bytes
  fromSlice bytes := match [Literal.null,.bool true,.bool false].find? fun v => trimmed bytes = v.bytes with
    | some v => .ok v
    | none => .error "expected value"

theorem literals_parsed (parsed : literals.fromSlice bytes = .ok v) : trimmed bytes = v.bytes := by
  simp only [literals] at parsed
  split at parsed
  next found =>
    obtain rfl := Except.ok.inj parsed
    simpa using List.find?_some found
  · contradiction

theorem trimmed_subset (bytes : List UInt8) : trimmed bytes ⊆ bytes := by
  intro b member
  have inner := List.dropWhile_subset _ member
  have outer := List.dropWhile_subset _ (List.mem_reverse.mp inner)
  exact List.mem_reverse.mp outer

theorem literals_documented (sent : List Literal) : literals.Documented sent where
  raw v _ := by
    cases v with
    | null => decide
    | bool b => cases b <;> decide
  inverts v _ := by
    cases v with
    | null => rfl
    | bool b => cases b <;> rfl
  trailing bytes v parsed := by
    have same : trimmed (bytes ++ [newline]) = trimmed bytes := by
      simp [trimmed,newline,isJsonSpace]
    simpa only [literals,same] using parsed
  blank bytes v parsed := by
    have found := literals_parsed parsed
    by_contra spaces
    have spaces : ∀ b ∈ bytes, isAsciiWhitespace b = true := by simpa using spaces
    have first : ∃ b ∈ v.bytes, isAsciiWhitespace b = false := by
      cases v with
      | null => decide
      | bool b => cases b <;> decide
    obtain ⟨b,member,solid⟩ := first
    simp [spaces b (trimmed_subset bytes (found ▸ member))] at solid

/-- `true`, `null`, `false`, cut within the first two of them. -/
theorem ndjson_framing_literals : readMsgs literals 4 (.new [.ok [116,114],.ok [117,101,10,110,117],
    .ok [108,108,10,102,97,108,115,101,10]]) =
    [.ok (some (.bool true)),.ok (some (.bool false)),.ok none,.ok none] :=
  (ndjson_framing literals).1 [.bool true,.null,.bool false] (literals_documented _)
    [[116,114],[117,101,10,110,117],[108,108,10,102,97,108,115,101,10]] (by decide) rfl 4

end Malkuth.Codec
