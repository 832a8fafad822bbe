import Malkuth.Codec

/-! `read_msg` of `codec.rs` as the steps of a task: a read of the stream adds to the buffer,
and a complete line is taken out of it. A task that is dropped between two steps loses
nothing, since both are in the connection. -/
namespace Malkuth.Codec

variable {Value Error : Type} (json : SerdeJson Value Error)

/-- `received` are the bytes that all reads have returned, `rdBuf` those not yet taken. -/
structure Reader where
  received : List UInt8
  rdBuf : List UInt8
  deriving DecidableEq

def Reader.new : Reader := ⟨[],[]⟩

/-- The stream is read only when no line is complete; a read of nothing is the end. -/
def Reader.receive (r : Reader) (chunk : List UInt8) : Option Reader :=
  if (takeFrame json r.rdBuf).isNone ∧ chunk ≠ [] then some ⟨r.received ++ chunk,r.rdBuf ++ chunk⟩ else none

def Reader.take (r : Reader) : Option (Except Error Value × Reader) :=
  (takeFrame json r.rdBuf).map fun (res,rest) => (res,⟨r.received,rest⟩)

/-- The results of the lines that were taken so far. -/
def Reader.Returned [DecidableEq Value] (r : Reader) (out : List (ReadResult Value Error)) : Prop :=
  ∃ taken, r.received = taken ++ r.rdBuf ∧ Complete taken ∧ results json taken = out

theorem receive_eq_some (r : Reader) (received : r.receive json chunk = some r') :
    r' = ⟨r.received ++ chunk,r.rdBuf ++ chunk⟩ := by
  obtain ⟨_,same⟩ := Option.ite_none_right_eq_some.mp received
  exact (Option.some.inj same).symm

theorem take_eq_some (r : Reader) (took : r.take json = some (res,r')) :
    takeFrame json r.rdBuf = some (res,r'.rdBuf) ∧ r'.received = r.received := by
  obtain ⟨⟨res',rest⟩,frame,same⟩ := Option.map_eq_some_iff.mp took
  obtain ⟨rfl,rfl⟩ := Prod.mk.inj same
  exact ⟨frame,rfl⟩

/-- More bytes after a complete line change nothing about it. -/
theorem takeFrame_append (took : takeFrame json rdBuf = some (res,rest)) (more : List UInt8) :
    takeFrame json (rdBuf ++ more) = some (res,rest ++ more) := by
  obtain ⟨content,rfl,clean,rfl⟩ := takeFrame_some json took
  rw [List.append_assoc,List.cons_append,takeFrame_line json content _ clean]

section Results

variable [DecidableEq Value]

theorem returned_new : Reader.new.Returned json [] := ⟨[],rfl,rfl,rfl⟩

theorem Reader.Returned.receive (returned : Reader.Returned json r out) (received : r.receive json chunk = some r') :
    r'.Returned json out := by
  obtain ⟨taken,cut,complete,rfl⟩ := returned
  obtain rfl := receive_eq_some json r received
  exact ⟨taken,by simp [cut],complete,rfl⟩

theorem Reader.Returned.take (returned : Reader.Returned json r out) (took : r.take json = some (res,r')) :
    r'.Returned json (out ++ (outcome json res).toList) := by
  obtain ⟨taken,cut,complete,rfl⟩ := returned
  obtain ⟨frame,same⟩ := take_eq_some json r took
  obtain ⟨content,buffer,clean,rfl⟩ := takeFrame_some json frame
  have line : Lines.split newline (content ++ [newline]) = ([content ++ [newline]],[]) :=
    Lines.split_line newline content [] clean
  have own : results json (content ++ [newline]) = (Codec.frame json (content ++ [newline])).toList := by
    rw [results_line json content [] clean]
    exact List.append_nil _
  refine ⟨taken ++ (content ++ [newline]),?_,?_,?_⟩
  · rw [same,cut,buffer]
    simp
  · rw [Complete,Lines.split_append newline taken _ complete,line]
  · rw [(results_append json taken _ complete).1,own,Codec.frame]
    by_cases blank : (content ++ [newline]).all isAsciiWhitespace = true
    · rw [if_pos blank,if_pos blank,outcome,if_pos rfl]
    · rw [if_neg blank,if_neg blank]

end Results

end Malkuth.Codec
