import Malkuth.Transition

/-! A memo of what is computed from files that others replace. A call looks at the stamp of its
file, then for an entry with that stamp, and only then at the file itself; any number of calls
interleave with each other and with the replacements. -/
namespace StampedMemo

open Transition

inductive Task (κ σ ι : Type) where
  | idle
  | stat (key : κ)
  | lookup (key : κ) (stamp : σ)
  | read (key : κ) (stamp : σ)
  | insert (key : κ) (stamp : σ) (info : ι)
  | done (key : κ) (answer : Option ι)
  deriving DecidableEq, Repr

def Task.free : Task κ σ ι → Bool
  | .idle | .done _ _ => true
  | _ => false

/-- `stamps` are those that the file of a key has had so far. -/
structure Store (κ α σ ι : Type) where
  files : κ → Option α
  stamps : κ → List σ
  cache : κ → Option (σ × ι)
  tasks : Nat → Task κ σ ι

inductive Event (κ α : Type) where
  | call (i : Nat) (key : κ)
  | move (i : Nat)
  | replace (key : κ) (file : α)
  | remove (key : κ)
  deriving DecidableEq, Repr

variable {κ α σ ι : Type} [DecidableEq κ]

namespace Store

def empty : Store κ α σ ι := ⟨fun _ => none,fun _ => [],fun _ => none,fun _ => .idle⟩

def set (s : Store κ α σ ι) (i : Nat) (task : Task κ σ ι) : Store κ α σ ι :=
  { s with tasks := Function.update s.tasks i task }

variable [DecidableEq σ] (stamp : α → σ) (compute : κ → σ → α → ι)

def move (s : Store κ α σ ι) (i : Nat) : Option (Store κ α σ ι) :=
  match s.tasks i with
  | .stat key =>
    match s.files key with
    | none => some (s.set i (.done key none))
    | some file => some (s.set i (.lookup key (stamp file)))
  | .lookup key seen =>
    match s.cache key with
    | none => some (s.set i (.read key seen))
    | some (cached,info) => some (s.set i (if cached = seen then .done key (some info) else .read key seen))
  | .read key seen =>
    match s.files key with
    | none => some (s.set i (.done key none))
    | some file => some (s.set i (.insert key seen (compute key seen file)))
  | .insert key seen info =>
    some ({ s with cache := Function.update s.cache key (some (seen,info)) }.set i (.done key (some info)))
  | _ => none

def step (s : Store κ α σ ι) : Event κ α → Option (Store κ α σ ι)
  | .call i key => if (s.tasks i).free then some (s.set i (.stat key)) else none
  | .move i => s.move stamp compute i
  | .replace key file =>
    some { s with files := Function.update s.files key (some file)
                  stamps := Function.update s.stamps key (stamp file :: s.stamps key) }
  | .remove key => some { s with files := Function.update s.files key none }

end Store

def Event.caller : Event κ α → Option Nat
  | .call i _ => some i
  | _ => none

/-- A file that is put in place has a stamp that no earlier one had. -/
def Fresh (stamp : α → σ) (s : Store κ α σ ι) : Event κ α → Prop
  | .replace key file => stamp file ∉ s.stamps key
  | _ => True

instance [DecidableEq σ] (stamp : α → σ) (s : Store κ α σ ι) : (e : Event κ α) → Decidable (Fresh stamp s e)
  | .replace key file => inferInstanceAs (Decidable (stamp file ∉ s.stamps key))
  | .call _ _ | .move _ | .remove _ => inferInstanceAs (Decidable True)

section Steps

variable {stamp : α → σ} {compute : κ → σ → α → ι}

inductive Moves (stamp : α → σ) (compute : κ → σ → α → ι) (s : Store κ α σ ι) :
    Task κ σ ι → Task κ σ ι → (κ → Option (σ × ι)) → Prop where
  | absent (gone : s.files key = none) : Moves stamp compute s (.stat key) (.done key none) s.cache
  | found (here : s.files key = some file) : Moves stamp compute s (.stat key) (.lookup key (stamp file)) s.cache
  | hit (cached : s.cache key = some (seen,info)) : Moves stamp compute s (.lookup key seen) (.done key (some info)) s.cache
  | missed : Moves stamp compute s (.lookup key seen) (.read key seen) s.cache
  | vanished (gone : s.files key = none) : Moves stamp compute s (.read key seen) (.done key none) s.cache
  | computed (here : s.files key = some file) :
      Moves stamp compute s (.read key seen) (.insert key seen (compute key seen file)) s.cache
  | inserted : Moves stamp compute s (.insert key seen info) (.done key (some info))
      (Function.update s.cache key (some (seen,info)))

inductive Steps (stamp : α → σ) (compute : κ → σ → α → ι) (s : Store κ α σ ι) : Event κ α → Store κ α σ ι → Prop where
  | called (i : Nat) (key : κ) (free : (s.tasks i).free = true) : Steps stamp compute s (.call i key) (s.set i (.stat key))
  | moved (i : Nat) (task : Task κ σ ι) (cache : κ → Option (σ × ι)) (moves : Moves stamp compute s (s.tasks i) task cache) :
      Steps stamp compute s (.move i) ({ s with cache := cache }.set i task)
  | replaced (key : κ) (file : α) : Steps stamp compute s (.replace key file)
      { s with files := Function.update s.files key (some file)
               stamps := Function.update s.stamps key (stamp file :: s.stamps key) }
  | removed (key : κ) : Steps stamp compute s (.remove key) { s with files := Function.update s.files key none }

variable [DecidableEq σ]

theorem step_steps (s s' : Store κ α σ ι) (e : Event κ α) (taken : s.step stamp compute e = some s') :
    Steps stamp compute s e s' := by
  cases e with
  | call i key =>
    obtain ⟨free,rfl⟩ := Option.ite_some_none_eq_some.mp taken
    exact .called i key free
  | replace key file => obtain rfl := Option.some.inj taken; exact .replaced key file
  | remove key => obtain rfl := Option.some.inj taken; exact .removed key
  | move i =>
    simp only [Store.step,Store.move] at taken
    split at taken
    next key here =>
      split at taken
      next gone => obtain rfl := Option.some.inj taken; exact .moved i _ _ (here ▸ .absent gone)
      next file there => obtain rfl := Option.some.inj taken; exact .moved i _ _ (here ▸ .found there)
    next key seen here =>
      split at taken
      next => obtain rfl := Option.some.inj taken; exact .moved i _ _ (here ▸ .missed)
      next cached info entry =>
        obtain rfl := Option.some.inj taken
        by_cases same : cached = seen
        · rw [if_pos same]
          exact .moved i _ _ (here ▸ .hit (same ▸ entry))
        · rw [if_neg same]
          exact .moved i _ _ (here ▸ .missed)
    next key seen here =>
      split at taken
      next gone => obtain rfl := Option.some.inj taken; exact .moved i _ _ (here ▸ .vanished gone)
      next file there => obtain rfl := Option.some.inj taken; exact .moved i _ _ (here ▸ .computed there)
    next here => obtain rfl := Option.some.inj taken; exact .moved i _ _ (here ▸ .inserted)
    next => contradiction

end Steps

def Task.stamped : Task κ σ ι → Option (κ × σ)
  | .lookup key seen | .read key seen | .insert key seen _ => some (key,seen)
  | _ => none

/-- What is about to be put into the cache, or is in it. -/
def Store.Offers (s : Store κ α σ ι) (key : κ) (seen : σ) (info : ι) : Prop :=
  s.cache key = some (seen,info) ∨ ∃ i, s.tasks i = .insert key seen info

section Honest

variable {stamp : α → σ} {compute : κ → σ → α → ι}

/-- Every stamp in use is one that the file has had, and what is offered for the stamp that it
has now was computed from it. -/
structure Honest (stamp : α → σ) (compute : κ → σ → α → ι) (s : Store κ α σ ι) : Prop where
  files : ∀ key file, s.files key = some file → stamp file ∈ s.stamps key
  tasks : ∀ i key seen, (s.tasks i).stamped = some (key,seen) → seen ∈ s.stamps key
  cache : ∀ key seen info, s.cache key = some (seen,info) → seen ∈ s.stamps key
  offers : ∀ key file info, s.files key = some file → s.Offers key (stamp file) info → info = compute key (stamp file) file

/-- What a call comes to offer was offered before, or is computed from the file there is. -/
theorem Moves.offers (moves : Moves stamp compute s (s.tasks i) task cache)
    (offered : ({ s with cache := cache }.set i task).Offers key seen info) :
    s.Offers key seen info ∨ ∃ file, s.files key = some file ∧ info = compute key seen file ∧ s.tasks i = .read key seen := by
  rcases offered with cached | ⟨j,insert⟩
  · generalize before : s.tasks i = task₀ at moves
    cases moves with
    | inserted =>
      rcases update_cases (· = some (seen,info)) cached with ⟨rfl,same⟩ | ⟨_,old⟩
      · obtain ⟨rfl,rfl⟩ := Prod.mk.inj (Option.some.inj same)
        exact .inl (.inr ⟨i,before⟩)
      · exact .inl (.inl old)
    | _ => exact .inl (.inl cached)
  · rcases update_cases (· = Task.insert key seen info) insert with ⟨rfl,same⟩ | ⟨_,old⟩
    · generalize before : s.tasks j = task₀ at moves
      cases moves with
      | computed here =>
        obtain ⟨rfl,rfl,rfl⟩ := Task.insert.inj same
        exact .inr ⟨_,here,rfl,rfl⟩
      | _ => cases same
    · exact .inl (.inr ⟨j,old⟩)

/-- A call goes by a stamp of the file there is, or by the one it had. -/
theorem Moves.stamped (moves : Moves stamp compute s before after cache) (stamped : after.stamped = some (key,seen)) :
    before.stamped = some (key,seen) ∨ ∃ file, s.files key = some file ∧ stamp file = seen := by
  cases moves with
  | found here =>
    obtain ⟨rfl,rfl⟩ := Prod.mk.inj (Option.some.inj stamped)
    exact .inr ⟨_,here,rfl⟩
  | missed | computed => exact .inl stamped
  | _ => cases stamped

omit [DecidableEq κ] in
theorem Honest.used (honest : Honest stamp compute s) (offered : s.Offers key seen info) : seen ∈ s.stamps key := by
  rcases offered with cached | ⟨i,insert⟩
  · exact honest.cache key seen info cached
  · exact honest.tasks i key seen (congrArg Task.stamped insert)

theorem Steps.honest (steps : Steps stamp compute s e s') (honest : Honest stamp compute s) (fresh : Fresh stamp s e) :
    Honest stamp compute s' := by
  cases steps with
  | called i key free =>
    refine ⟨honest.files,?_,honest.cache,?_⟩
    · intro j key' seen stamped
      rcases update_cases (fun task : Task κ σ ι => task.stamped = some (key',seen)) stamped with ⟨_,same⟩ | ⟨_,old⟩
      · cases same
      · exact honest.tasks j key' seen old
    · rintro key' file info here (cached | ⟨j,insert⟩)
      · exact honest.offers key' file info here (.inl cached)
      · rcases update_cases (· = Task.insert key' (stamp file) info) insert with ⟨_,same⟩ | ⟨_,old⟩
        · cases same
        · exact honest.offers key' file info here (.inr ⟨j,old⟩)
  | moved i task cache moves =>
    refine ⟨honest.files,?_,?_,?_⟩
    · intro j key seen stamped
      rcases update_cases (fun task : Task κ σ ι => task.stamped = some (key,seen)) stamped with ⟨rfl,new⟩ | ⟨_,old⟩
      · rcases moves.stamped new with old | ⟨file,here,rfl⟩
        · exact honest.tasks j key seen old
        · exact honest.files key file here
      · exact honest.tasks j key seen old
    · intro key seen info cached
      rcases moves.offers (.inl cached) with old | ⟨_,_,_,reading⟩
      · exact honest.used old
      · exact honest.tasks i key seen (congrArg Task.stamped reading)
    · intro key file info here offered
      rcases moves.offers offered with old | ⟨file',there,rfl,_⟩
      · exact honest.offers key file info here old
      · obtain rfl := Option.some.inj (here.symm.trans there)
        rfl
  | replaced key file =>
    have grown : ∀ key' seen, seen ∈ s.stamps key' → seen ∈ Function.update s.stamps key (stamp file :: s.stamps key) key' := by
      intro key' seen member
      exact update_holds (seen ∈ ·) member fun same => by subst same; exact List.mem_cons_of_mem _ member
    refine ⟨?_,fun j key' seen stamped => grown _ _ (honest.tasks j key' seen stamped),
      fun key' seen info cached => grown _ _ (honest.cache key' seen info cached),?_⟩
    · intro key' file' here
      rcases update_cases (· = some file') here with ⟨rfl,same⟩ | ⟨_,old⟩
      · simp [Option.some.inj same]
      · exact grown _ _ (honest.files key' file' old)
    · intro key' file' info here offered
      rcases update_cases (· = some file') here with ⟨rfl,same⟩ | ⟨_,old⟩
      · obtain rfl := Option.some.inj same
        exact absurd (honest.used (s := s) offered) fresh
      · exact honest.offers key' file' info old offered
  | removed key =>
    have kept : ∀ key' file, Function.update s.files key none key' = some file → s.files key' = some file := by
      intro key' file here
      rcases update_cases (· = some file) here with ⟨_,same⟩ | ⟨_,old⟩
      · cases same
      · exact old
    exact ⟨fun key' file here => honest.files key' file (kept _ _ here),honest.tasks,honest.cache,
      fun key' file info here offered => honest.offers key' file info (kept _ _ here) offered⟩

theorem run_honest [DecidableEq σ] (run : Run (Store.step stamp compute) .empty past s)
    (fresh : ∀ t ∈ past, Fresh stamp t.pre t.event) : Honest stamp compute s :=
  run.invariant ⟨by simp [Store.empty],by simp [Store.empty,Task.stamped],by simp [Store.empty],by simp [Store.empty]⟩
    (fun s e s' honest fresh taken => (step_steps s s' e taken).honest honest fresh) fresh

end Honest

section Window

variable {stamp : α → σ} {compute : κ → σ → α → ι}

/-- At some moment of the window, the key had no file, or a file of which this is true. -/
def Saw (past : List (Taken (Store κ α σ ι) (Event κ α))) (key : κ) (P : Option α → Prop) : Prop :=
  ∃ w ∈ past, P (w.post.files key)

omit [DecidableEq κ] in
theorem Saw.later (saw : Saw past key P) (t : Taken (Store κ α σ ι) (Event κ α)) : Saw (past ++ [t]) key P := by
  obtain ⟨w,member,held⟩ := saw
  exact ⟨w,List.mem_append_left _ member,held⟩

def Stamped (stamp : α → σ) (seen : σ) (file : Option α) : Prop := ∃ here, file = some here ∧ stamp here = seen

/-- The info was computed from the file. -/
def Computed (compute : κ → σ → α → ι) (key : κ) (seen : σ) (info : ι) (file : Option α) : Prop :=
  ∃ here, file = some here ∧ info = compute key seen here

def Covered (compute : κ → σ → α → ι) (past : List (Taken (Store κ α σ ι) (Event κ α))) (s : Store κ α σ ι) (key : κ)
    (seen : σ) : Prop := ∀ info, s.Offers key seen info → Saw past key (Computed compute key seen info)

/-- The answer of a call: nothing if its file was not there for a moment, and else what is
computed from the stamp of one and the content of another file that were. -/
def Answer (stamp : α → σ) (compute : κ → σ → α → ι) (past : List (Taken (Store κ α σ ι) (Event κ α))) (key : κ) :
    Option ι → Prop
  | none => Saw past key (· = none)
  | some info => ∃ seen, Saw past key (Stamped stamp seen) ∧ Saw past key (Computed compute key seen info)

def Within (stamp : α → σ) (compute : κ → σ → α → ι) (past : List (Taken (Store κ α σ ι) (Event κ α))) (s : Store κ α σ ι)
    (key : κ) : Task κ σ ι → Prop
  | .idle => False
  | .stat key' => key' = key
  | .lookup key' seen | .read key' seen | .insert key' seen _ =>
    key' = key ∧ Saw past key (Stamped stamp seen) ∧ Covered compute past s key seen
  | .done key' answer => key' = key ∧ Answer stamp compute past key answer

structure Next (compute : κ → σ → α → ι) (past : List (Taken (Store κ α σ ι) (Event κ α))) (s : Store κ α σ ι) (key : κ)
    (s' : Store κ α σ ι) : Prop where
  offers : ∀ seen info, s'.Offers key seen info → s.Offers key seen info ∨ Computed compute key seen info (s.files key)
  now : ∀ P : Option α → Prop, P (s.files key) → Saw past key P

omit [DecidableEq κ] in
theorem Covered.later (covered : Covered compute past s key seen) (next : Next compute past s key s')
    (t : Taken (Store κ α σ ι) (Event κ α)) : Covered compute (past ++ [t]) s' key seen := by
  intro info offered
  rcases next.offers seen info offered with old | new
  · exact (covered info old).later t
  · exact (next.now _ new).later t

omit [DecidableEq κ] in
theorem Answer.later (answer : Answer stamp compute past key given) (t : Taken (Store κ α σ ι) (Event κ α)) :
    Answer stamp compute (past ++ [t]) key given := by
  cases given with
  | none => exact Saw.later (P := (· = none)) answer t
  | some info =>
    obtain ⟨seen,stat,computed⟩ := answer
    exact ⟨seen,stat.later t,computed.later t⟩

omit [DecidableEq κ] in
/-- Another step leaves a call within its window. -/
theorem Within.later (within : Within stamp compute past s key task) (next : Next compute past s key s')
    (t : Taken (Store κ α σ ι) (Event κ α)) : Within stamp compute (past ++ [t]) s' key task := by
  cases task with
  | idle | stat => exact within
  | lookup | read | insert =>
    obtain ⟨same,stat,covered⟩ := within
    exact ⟨same,stat.later t,covered.later next t⟩
  | done _ answer => exact ⟨within.1,within.2.later t⟩

/-- No step offers more for a key than what was offered or is computed from its file. -/
theorem Steps.offers (steps : Steps stamp compute s e s') (offered : s'.Offers key seen info) :
    s.Offers key seen info ∨ Computed compute key seen info (s.files key) := by
  cases steps with
  | called i key' free =>
    rcases offered with cached | ⟨j,insert⟩
    · exact .inl (.inl cached)
    · rcases update_cases (· = Task.insert key seen info) insert with ⟨_,same⟩ | ⟨_,old⟩
      · cases same
      · exact .inl (.inr ⟨j,old⟩)
  | moved i task cache moves => exact (moves.offers offered).imp_right fun ⟨file,here,same,_⟩ => ⟨file,here,same⟩
  | _ => exact .inl offered

/-- The call's own step. -/
theorem Moves.within (moves : Moves stamp compute s (s.tasks i) task cache) (honest : Honest stamp compute s)
    (within : Within stamp compute past s key (s.tasks i)) (next : Next compute past s key s')
    (t : Taken (Store κ α σ ι) (Event κ α)) : Within stamp compute (past ++ [t]) s' key task := by
  generalize before : s.tasks i = task₀ at moves within
  cases moves with
  | @absent key' gone =>
    obtain rfl : key' = key := within
    exact ⟨rfl,(next.now (· = none) gone).later t⟩
  | @found key' file here =>
    obtain rfl : key' = key := within
    have covered : Covered compute past s key' (stamp file) := fun info offered =>
      next.now _ ⟨file,here,honest.offers key' file info here offered⟩
    exact ⟨rfl,(next.now _ ⟨file,here,rfl⟩).later t,covered.later next t⟩
  | hit cached =>
    obtain ⟨rfl,stat,covered⟩ := within
    exact ⟨rfl,_,stat.later t,(covered _ (.inl cached)).later t⟩
  | missed | computed =>
    obtain ⟨rfl,stat,covered⟩ := within
    exact ⟨rfl,stat.later t,covered.later next t⟩
  | vanished gone =>
    obtain ⟨rfl,_⟩ := within
    exact ⟨rfl,(next.now (· = none) gone).later t⟩
  | inserted =>
    obtain ⟨rfl,stat,covered⟩ := within
    exact ⟨rfl,_,stat.later t,(covered _ (.inr ⟨i,before⟩)).later t⟩

theorem Steps.within (steps : Steps stamp compute s e s') (honest : Honest stamp compute s) (own : e.caller ≠ some i)
    (within : Within stamp compute past s key (s.tasks i)) (now : ∀ P : Option α → Prop, P (s.files key) → Saw past key P)
    (t : Taken (Store κ α σ ι) (Event κ α)) : Within stamp compute (past ++ [t]) s' key (s'.tasks i) := by
  have next : Next compute past s key s' := ⟨fun _ _ => steps.offers,now⟩
  cases steps with
  | called j key' free =>
    have different : i ≠ j := by
      rintro rfl
      exact own rfl
    simpa [Store.set,different] using within.later next t
  | moved j task cache moves =>
    by_cases here : i = j
    · subst here
      simpa [Store.set] using moves.within honest within next t
    · simpa [Store.set,here] using within.later next t
  | _ => exact within.later next t

variable [DecidableEq σ]

theorem run_within (c : Taken (Store κ α σ ι) (Event κ α)) (called : c.post.tasks i = .stat key)
    (before : Run (Store.step stamp compute) .empty front c.pre) (taken : c.pre.step stamp compute c.event = some c.post)
    (fresh : ∀ t ∈ front ++ c :: past, Fresh stamp t.pre t.event) (run : Run (Store.step stamp compute) c.post past s)
    (own : ∀ t ∈ past, t.event.caller ≠ some i) : Within stamp compute (c :: past) s key (s.tasks i) := by
  induction run with
  | nil => rw [called]; rfl
  | @snoc past m e m' reached moved ih =>
    have honest : Honest stamp compute m := by
      apply run_honest ((before.snoc taken).append reached)
      intro t member
      exact fresh t (by simp at member ⊢; tauto)
    have within := ih (fun t member => fresh t (by simp at member ⊢; tauto)) fun t member => own t (by simp [member])
    exact (step_steps m m' e moved).within honest (own ⟨m,e,m'⟩ (by simp)) within
      (fun P held => reached.held (P := fun s : Store κ α σ ι => P (s.files key)) c held) ⟨m,e,m'⟩

/-- The answer of every call is what a single look would have found: computed from the stamp of
a file that was there after the call began, and from the content of one that was; or nothing,
if there was a moment without. -/
theorem answer_within (run : Run (Store.step stamp compute) .empty (front ++ c :: past) s)
    (fresh : ∀ t ∈ front ++ c :: past, Fresh stamp t.pre t.event) (called : c.event = .call i key)
    (own : ∀ t ∈ past, t.event.caller ≠ some i) (done : s.tasks i = .done key' answer) :
    key' = key ∧ Answer stamp compute (c :: past) key answer := by
  obtain ⟨before,taken,after⟩ := run.split
  have start : c.post.tasks i = .stat key := by
    rw [called] at taken
    obtain ⟨_,same⟩ := Option.ite_some_none_eq_some.mp taken
    rw [← same]
    simp [Store.set]
  have within := run_within c start before taken fresh after own
  rwa [done] at within

end Window

end StampedMemo
