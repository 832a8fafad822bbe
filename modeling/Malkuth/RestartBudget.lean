import Malkuth.RestartBook
import Malkuth.SlidingWindow
import Malkuth.Transition
import Mathlib.Data.List.Forall2

/-! The operator's restart budget. One list of stamps serves all workers of a run; a call
prunes it, reading the clock for each stamp, and counts the stamps of its own worker. The list
is compared with everything that was ever accepted, and with the list that the calls for one
worker alone would have made. -/
namespace Malkuth.Mcp.Budget

open Malkuth.Fleet Transition SlidingWindow

/-- A call of `accept_restart`: the fleet state it shows and its clock readings, `clock k` for
the stamp at `k` and `now` at its end. -/
structure Call where
  worker : String
  phases : Phases
  clock : Nat → Nat
  now : Nat

structure State where
  book : RestartBook
  last : Nat

def Call.readings (c : Call) (stamps : Nat) : List Nat := (List.range stamps).map c.clock

/-- A monotone clock: no reading of the call is before an earlier one. -/
def Call.InOrder (c : Call) (last stamps : Nat) : Prop :=
  (last :: (c.readings stamps ++ [c.now])).Pairwise (· ≤ ·)

instance (c : Call) (last stamps : Nat) : Decidable (c.InOrder last stamps) :=
  inferInstanceAs (Decidable (List.Pairwise _ _))

def Call.run (c : Call) (book : RestartBook) : Except Refusal Unit × RestartBook :=
  book.accept c.phases c.worker c.clock c.now

def step (s : State) (c : Call) : Option State :=
  if c.InOrder s.last s.book.stamps.length then some ⟨(c.run s.book).2,c.now⟩ else none

def initial (last : Nat) : State := ⟨.default,last⟩

abbrev History := List (Taken State Call)

def answer (t : Taken State Call) : Except Refusal Unit := (t.event.run t.pre.book).1

def stamped (t : Taken State Call) : Option (String × Nat) :=
  match answer t with
  | .ok _ => some (t.event.worker,t.event.now)
  | .error _ => none

def accepted (past : History) : List (String × Nat) := past.filterMap stamped

def acceptedAt (worker : String) (past : History) : List Nat :=
  ((accepted past).filter fun s => s.1 == worker).map Prod.snd

def Expired (at_ : Nat) (stamp : String × Nat) : Prop := explicitRestartWindow ≤ at_ - stamp.2

def retained (pairs : List ((String × Nat) × Nat)) : List (String × Nat) :=
  (pairs.filter fun (stamp,reading) => reading - stamp.2 < explicitRestartWindow).map Prod.fst

theorem retainRecent_eq (c : Call) (stamps : List (String × Nat)) :
    retainRecent c.clock stamps = retained (stamps.zip (c.readings stamps.length)) := by
  have pairs : stamps.zip (c.readings stamps.length) = (stamps.zipIdx).map fun x => (x.1,c.clock x.2) := by
    rw [Call.readings,List.zipIdx_eq_zip_range',List.zip_map_right,List.range_eq_range']
    rfl
  rw [retained,pairs,List.filter_map,List.map_map]
  rfl

theorem length_readings (c : Call) (n : Nat) : (c.readings n).length = n := by simp [Call.readings]

theorem Call.InOrder.bounds {c : Call} (inOrder : c.InOrder last n) :
    last ≤ c.now ∧ (∀ r ∈ c.readings n, last ≤ r ∧ r ≤ c.now) ∧ (c.readings n).Pairwise (· ≤ ·) := by
  obtain ⟨first,rest⟩ := List.pairwise_cons.mp inOrder
  obtain ⟨sorted,_,before⟩ := List.pairwise_append.mp rest
  exact ⟨first c.now (by simp),fun r member => ⟨first r (by simp [member]),before r member c.now (by simp)⟩,sorted⟩

/-- The first reading of a call is its reading for the oldest stamp. -/
theorem Call.InOrder.first {c : Call} (inOrder : c.InOrder last n) (read : r ∈ c.readings n) :
    last ≤ c.clock 0 ∧ c.clock 0 ≤ r := by
  obtain ⟨_,between,sorted⟩ := inOrder.bounds
  cases n with
  | zero => simp [Call.readings] at read
  | succ n =>
    simp only [Call.readings,List.range_succ_eq_map,List.map_cons] at read between sorted
    refine ⟨(between _ List.mem_cons_self).1,?_⟩
    rcases List.mem_cons.mp read with same | later
    · exact Nat.le_of_eq same.symm
    · exact (List.pairwise_cons.mp sorted).1 r later

/-- What a call prunes is expired when the call ends. -/
theorem retainRecent_thins (c : Call) (stamps : List (String × Nat)) (inOrder : c.InOrder last stamps.length) :
    Thins (Expired c.now) (retainRecent c.clock stamps) stamps := by
  obtain ⟨_,between,_⟩ := inOrder.bounds
  have whole : (stamps.zip (c.readings stamps.length)).map Prod.fst = stamps :=
    List.map_fst_zip (Nat.le_of_eq (length_readings c _).symm)
  rw [retainRecent_eq,retained]
  have pairs : Thins (fun x : (String × Nat) × Nat => Expired c.now x.1)
      ((stamps.zip (c.readings stamps.length)).filter fun (stamp,reading) =>
        reading - stamp.2 < explicitRestartWindow) (stamps.zip (c.readings stamps.length)) := thins_filter _ _ ?_
  · have kept := pairs.map Prod.fst fun _ => id
    rwa [whole] at kept
  rintro ⟨stamp,reading⟩ member old
  have late := (between reading (List.of_mem_zip member).2).2
  simp only [decide_eq_false_iff_not] at old
  change explicitRestartWindow ≤ c.now - stamp.2
  omega

/-- The locked section prunes the stamps and pushes that of an accepted call. -/
theorem run_stamps (t : Taken State Call) :
    (t.event.run t.pre.book).2.stamps =
      retainRecent t.event.clock t.pre.book.stamps ++ (stamped t).toList := by
  obtain ⟨s,c,s'⟩ := t
  cases done : (c.run s.book).1 with
  | ok _ =>
    obtain ⟨_,_,_,_,_,result⟩ := accept_ok s.book c.phases c.worker c.clock c.now done
    have result : (c.run s.book).2 = _ := result
    simp [result,stamped,answer,done,RestartBook.settle]
  | error code =>
    have result : (c.run s.book).2 = _ := accept_error s.book c.phases c.worker c.clock c.now done
    simp [result,stamped,answer,done,RestartBook.settle]

/-- The budget is tested on the pruned stamps of the worker. -/
theorem accept_room (book : RestartBook) (phases : Phases) (worker : String) (clock : Nat → Nat) (now : Nat)
    (ok : (book.accept phases worker clock now).1 = .ok ()) :
    ((retainRecent clock book.stamps).filter fun s => s.1 == worker).length < explicitRestartMax := by
  unfold RestartBook.accept at ok
  dsimp only at ok
  split at ok
  · contradiction
  · split at ok
    · contradiction
    next room => exact Nat.lt_of_not_le room

theorem accept_exhausted (book : RestartBook) (phases : Phases) (worker : String) (clock : Nat → Nat) (now : Nat)
    (refused : (book.accept phases worker clock now).1 = .error .restartBudgetExhausted) :
    explicitRestartMax ≤ ((retainRecent clock book.stamps).filter fun s => s.1 == worker).length := by
  unfold RestartBook.accept at refused
  dsimp only at refused
  split at refused
  next code blocked =>
    obtain rfl : code = .restartBudgetExhausted := by simpa using refused
    simp only [restartBlocker] at blocked
    split at blocked
    · contradiction
    · split at blocked <;> contradiction
  · split at refused
    next full => exact full
    · contradiction

section Run

/-- The book has every accepted stamp but expired ones, and stamps are readings of the clock. -/
structure Books (past : History) (s : State) : Prop where
  stamps : Thins (Expired s.last) s.book.stamps (accepted past)
  read : ∀ stamp ∈ accepted past, stamp.2 ≤ s.last
  limited : ∀ worker, Limited explicitRestartWindow explicitRestartMax (acceptedAt worker past)

theorem Expired.mono (expired : Expired at_ stamp) (later : at_ ≤ at_') : Expired at_' stamp := by
  simp only [Expired] at expired ⊢
  omega

theorem accepted_snoc (past : History) (t : Taken State Call) :
    accepted (past ++ [t]) = accepted past ++ (stamped t).toList := by
  rw [accepted,List.filterMap_append]
  cases shown : stamped t <;> simp [accepted,shown]

/-- The accepted calls of a worker in the window that ends with the call are among the stamps
that the call counts. -/
theorem Books.recent (books : Books past s) (c : Call) (inOrder : c.InOrder s.last s.book.stamps.length)
    (worker : String) :
    (prune explicitRestartWindow c.now (acceptedAt worker past)).length ≤
      ((retainRecent c.clock s.book.stamps).filter fun stamp => stamp.1 == worker).length := by
  have later := inOrder.bounds.1
  have pruned := retainRecent_thins c s.book.stamps inOrder
  have whole : Thins (Expired c.now) (retainRecent c.clock s.book.stamps) (accepted past) :=
    pruned.trans (books.stamps.mono fun _ expired => expired.mono later)
  have unseen (stamp) (expired : Expired c.now stamp) :
      decide (c.now - stamp.2 < explicitRestartWindow) = false := by
    simpa [Expired] using expired
  have same := (whole.filter fun stamp => stamp.1 == worker).filter_eq
    (fun stamp => decide (c.now - stamp.2 < explicitRestartWindow)) unseen
  rw [prune,acceptedAt,List.filter_map,List.length_map]
  change (List.filter (fun stamp : String × Nat => decide (c.now - stamp.2 < explicitRestartWindow)) _).length ≤ _
  rw [← same]
  exact List.length_filter_le _ _

theorem step_books (books : Books past s) (taken : step s c = some s') : Books (past ++ [⟨s,c,s'⟩]) s' := by
  obtain ⟨inOrder,rfl⟩ := Option.ite_some_none_eq_some.mp taken
  have later := inOrder.bounds.1
  have stamps := run_stamps ⟨s,c,⟨(c.run s.book).2,c.now⟩⟩
  have snoc := accepted_snoc past ⟨s,c,⟨(c.run s.book).2,c.now⟩⟩
  refine ⟨?_,?_,?_⟩
  · rw [snoc]
    change Thins (Expired c.now) (c.run s.book).2.stamps _
    rw [stamps]
    refine Thins.append ?_ (.refl _)
    exact (retainRecent_thins c s.book.stamps inOrder).trans
      (books.stamps.mono fun _ expired => expired.mono later)
  · intro stamp member
    rw [snoc] at member
    rcases List.mem_append.mp member with old | new
    · exact Nat.le_trans (books.read stamp old) later
    · simp only [stamped,answer] at new
      split at new
      · obtain rfl := by simpa using new
        exact Nat.le_refl _
      · simp at new
  · intro worker
    have grown : acceptedAt worker (past ++ [⟨s,c,⟨(c.run s.book).2,c.now⟩⟩]) = acceptedAt worker past ++
        (((stamped ⟨s,c,⟨(c.run s.book).2,c.now⟩⟩).toList).filter fun stamp => stamp.1 == worker).map Prod.snd := by
      rw [acceptedAt,snoc,List.filter_append,List.map_append,acceptedAt]
    rw [grown]
    cases done : (c.run s.book).1 with
    | error code =>
      have none_ : stamped ⟨s,c,⟨(c.run s.book).2,c.now⟩⟩ = none := by simp [stamped,answer,done]
      simpa [none_] using books.limited worker
    | ok _ =>
      have some_ : stamped ⟨s,c,⟨(c.run s.book).2,c.now⟩⟩ = some (c.worker,c.now) := by
        simp [stamped,answer,done]
      rw [some_]
      by_cases own : c.worker = worker
      · subst own
        have room := Nat.lt_of_le_of_lt (books.recent c inOrder c.worker) (accept_room _ _ _ _ _ done)
        simpa using (books.limited c.worker).snoc room
      · simpa [own] using books.limited worker

theorem run_books (run : Run step (initial last) past s) : Books past s := by
  induction run with
  | nil => exact ⟨.nil,by simp [accepted],by simp [Limited,acceptedAt,accepted]⟩
  | snoc _ taken ih => exact step_books ih taken

/-- A call that the budget refuses has five accepted calls of its worker in the window before
it began. -/
theorem Books.exhausted (books : Books past s) (c : Call) (inOrder : c.InOrder s.last s.book.stamps.length)
    (refused : (c.run s.book).1 = .error .restartBudgetExhausted) :
    explicitRestartMax ≤ ((acceptedAt c.worker past).filter fun at_ =>
      decide (at_ ≤ c.clock 0 ∧ c.clock 0 < at_ + explicitRestartWindow)).length := by
  have full := accept_exhausted _ _ _ _ _ refused
  have kept := ((retainRecent_sublist c.clock s.book.stamps).trans books.stamps.sublist)
  have tested : ((retainRecent c.clock s.book.stamps).filter fun stamp => stamp.1 == c.worker).filter
      (fun stamp => decide (stamp.2 ≤ c.clock 0 ∧ c.clock 0 < stamp.2 + explicitRestartWindow)) =
      (retainRecent c.clock s.book.stamps).filter fun stamp => stamp.1 == c.worker := by
    refine List.filter_eq_self.mpr ?_
    intro stamp member
    have inside := (List.mem_filter.mp member).1
    have before := books.read stamp (kept.subset inside)
    rw [retainRecent_eq] at inside
    obtain ⟨⟨_,reading⟩,pair,rfl⟩ := List.mem_map.mp inside
    obtain ⟨pair,recent⟩ := List.mem_filter.mp pair
    have read := (List.of_mem_zip pair).2
    obtain ⟨started,order⟩ := inOrder.first read
    simp only [decide_eq_true_eq] at recent ⊢
    dsimp only at before
    omega
  rw [acceptedAt,List.filter_map,List.length_map]
  refine Nat.le_trans full (Nat.le_trans (Nat.le_of_eq (congrArg List.length tested.symm)) ?_)
  exact ((kept.filter _).filter _).length_le

end Run

/-! The calls for one worker alone. -/
section Alone

/-- The same call, where the clock is read for fewer or other stamps: at readings of the call. -/
structure SameCall (c c' : Call) : Prop where
  worker : c'.worker = c.worker
  phases : c'.phases = c.phases
  now : c'.now = c.now
  clock : ∀ k, c'.clock k = c.now ∨ ∃ j, c'.clock k = c.clock j

def only (book : RestartBook) (worker : String) : RestartBook :=
  ⟨book.pending.filter fun r => r.1 == worker,book.stamps.filter fun s => s.1 == worker⟩

def decideOne (shown : WorkerPhase × Nat) (book : RestartBook) (worker : String) (now : Nat) :
    Except Refusal Unit × RestartBook :=
  match restartBlocker shown.1 (book.pending.any fun request => request.1 == worker) with
  | some code => (.error code,book)
  | none =>
    if explicitRestartMax ≤ (book.stamps.filter fun stamp => stamp.1 == worker).length then
      (.error .restartBudgetExhausted,book)
    else (.ok (),⟨book.pending ++ [(worker,shown.2)],book.stamps ++ [(worker,now)]⟩)

theorem run_eq_decideOne (c : Call) (book : RestartBook) :
    c.run book = decideOne ((c.phases c.worker).getD (.stopped,0)) (book.settle c.phases c.clock) c.worker c.now := rfl

theorem decideOne_only (shown : WorkerPhase × Nat) (book : RestartBook) (worker : String) (now : Nat) :
    decideOne shown (only book worker) worker now =
      ((decideOne shown book worker now).1,only (decideOne shown book worker now).2 worker) := by
  have pending : (only book worker).pending.any (fun request => request.1 == worker) =
      book.pending.any fun request => request.1 == worker := by
    simp [only,List.any_filter]
  have stamps : (only book worker).stamps.filter (fun stamp => stamp.1 == worker) =
      book.stamps.filter fun stamp => stamp.1 == worker := by
    simp [only,List.filter_filter]
  simp only [decideOne,pending,stamps]
  split
  · rfl
  · split
    · rfl
    · simp [only]

/-- Stamps that a shorter list has lost were expired, so there are readings of the same call at
which the longer list is pruned to the same stamps. -/
theorem exists_readings (pairs : List ((String × Nat) × Nat)) (stamps : List (String × Nat))
    (thins : Thins (Expired last) (pairs.map Prod.fst) stamps) (later : last ≤ now)
    (between : ∀ x ∈ pairs, last ≤ x.2 ∧ x.2 ≤ now) (sorted : (pairs.map Prod.snd).Pairwise (· ≤ ·)) :
    ∃ readings : List Nat, readings.length = stamps.length ∧
      (∀ r ∈ readings, r = now ∨ r ∈ pairs.map Prod.snd) ∧ readings.Pairwise (· ≤ ·) ∧
      retained (stamps.zip readings) = retained pairs := by
  generalize shape : pairs.map Prod.fst = fewer at thins
  induction thins generalizing pairs with
  | nil => exact ⟨[],rfl,by simp,.nil,by simp [List.map_eq_nil_iff.mp shape]⟩
  | keep x _ ih =>
    obtain ⟨⟨_,r⟩,rest,rfl,rfl,same⟩ := List.map_eq_cons_iff.mp shape
    obtain ⟨above,sorted⟩ := List.pairwise_cons.mp sorted
    obtain ⟨readings,length,known,order,result⟩ :=
      ih rest (fun y member => between y (List.mem_cons_of_mem _ member)) sorted same
    refine ⟨r :: readings,by simp [length],?_,?_,?_⟩
    · intro r' member
      rcases List.mem_cons.mp member with rfl | member
      · exact .inr (by simp)
      · exact (known r' member).imp_right fun inside => List.mem_cons_of_mem _ inside
    · refine List.pairwise_cons.mpr ⟨?_,order⟩
      intro r' member
      rcases known r' member with rfl | inside
      · exact (between _ List.mem_cons_self).2
      · exact above r' inside
    · simp only [retained,List.zip_cons_cons,List.filter_cons] at result ⊢
      split
      · rw [List.map_cons,List.map_cons,result]
      · exact result
  | @skip y _ _ out _ ih =>
    obtain ⟨readings,length,known,order,result⟩ := ih pairs between sorted shape
    -- read for the lost stamp when the next one is read for
    have filler : last ≤ readings.headD now ∧ (readings.headD now = now ∨ readings.headD now ∈ pairs.map Prod.snd) ∧
        ∀ r ∈ readings, readings.headD now ≤ r := by
      cases readings with
      | nil => exact ⟨later,.inl rfl,by simp⟩
      | cons r rest =>
        refine ⟨?_,known r List.mem_cons_self,?_⟩
        · rcases known r List.mem_cons_self with rfl | inside
          · exact later
          · obtain ⟨x,member,rfl⟩ := List.mem_map.mp inside
            exact (between x member).1
        · intro r' member
          rcases List.mem_cons.mp member with rfl | member
          · exact Nat.le_refl _
          · exact (List.pairwise_cons.mp order).1 r' member
    obtain ⟨late,known',below⟩ := filler
    refine ⟨readings.headD now :: readings,by simp [length],?_,List.pairwise_cons.mpr ⟨below,order⟩,?_⟩
    · intro r member
      rcases List.mem_cons.mp member with rfl | member
      · exact known'
      · exact known r member
    · have old : ¬ readings.headD now - y.2 < explicitRestartWindow := by
        simp only [Expired] at out
        omega
      rw [← result]
      simp only [retained,List.zip_cons_cons,List.filter_cons,decide_eq_true_eq,if_neg old]

theorem exists_clock (c : Call) (stamps alone : List (String × Nat)) (inOrder : c.InOrder last stamps.length)
    (thins : Thins (Expired last) (stamps.filter fun s => s.1 == c.worker) alone) (early : last' ≤ last) :
    ∃ c', SameCall c c' ∧ c'.InOrder last' alone.length ∧
      retainRecent c'.clock alone = (retainRecent c.clock stamps).filter fun s => s.1 == c.worker := by
  obtain ⟨later,between,sorted⟩ := inOrder.bounds
  let pairs := (stamps.zip (c.readings stamps.length)).filter fun x => x.1.1 == c.worker
  have whole : (stamps.zip (c.readings stamps.length)).map Prod.fst = stamps :=
    List.map_fst_zip (Nat.le_of_eq (length_readings c _).symm)
  have reads : (stamps.zip (c.readings stamps.length)).map Prod.snd = c.readings stamps.length :=
    List.map_snd_zip (Nat.le_of_eq (length_readings c _))
  have own : pairs.map Prod.fst = stamps.filter fun s => s.1 == c.worker := by
    rw [← congrArg (List.filter fun s => s.1 == c.worker) whole,List.filter_map]
    rfl
  have order : (pairs.map Prod.snd).Pairwise (· ≤ ·) := by
    refine sorted.sublist ?_
    rw [← reads]
    exact List.filter_sublist.map _
  have inside (r) (member : r ∈ pairs.map Prod.snd) : r ∈ c.readings stamps.length := by
    rw [← reads]
    exact (List.filter_sublist.map Prod.snd).subset member
  obtain ⟨readings,length,known,order,result⟩ := exists_readings pairs alone (own ▸ thins) later
    (fun x member => between x.2 (inside x.2 (List.mem_map_of_mem member))) order
  have valid (r) (member : r ∈ readings) : last' ≤ r ∧ r ≤ c.now := by
    rcases known r member with rfl | read
    · exact ⟨Nat.le_trans early later,Nat.le_refl _⟩
    · obtain ⟨low,high⟩ := between r (inside r read)
      exact ⟨Nat.le_trans early low,high⟩
  let c' : Call := { c with clock := fun k => readings.getD k c.now }
  have readings_eq : c'.readings alone.length = readings := by
    rw [← length]
    refine List.ext_getElem (by simp [Call.readings]) fun k _ bound => ?_
    simp [Call.readings,c',bound]
  refine ⟨c',⟨rfl,rfl,rfl,?_⟩,?_,?_⟩
  · intro k
    by_cases bound : k < readings.length
    · have here : c'.clock k = readings[k] := by simp [c',bound]
      rw [here]
      rcases known _ (List.getElem_mem bound) with same | read
      · exact .inl same
      · obtain ⟨j,_,same⟩ := List.mem_map.mp (inside _ read)
        exact .inr ⟨j,same.symm⟩
    · exact .inl (by simp [c',bound])
  · rw [Call.InOrder,readings_eq]
    refine List.pairwise_cons.mpr ⟨?_,List.pairwise_append.mpr ⟨order,List.pairwise_singleton _ _,?_⟩⟩
    · intro r member
      rcases List.mem_append.mp member with read | last_
      · exact (valid r read).1
      · obtain rfl := List.mem_singleton.mp last_
        exact Nat.le_trans early later
    · intro r read r' last_
      obtain rfl := List.mem_singleton.mp last_
      exact (valid r read).2
  · rw [retainRecent_eq,retainRecent_eq,readings_eq,result]
    simp only [retained,pairs,List.filter_map,List.filter_filter,Function.comp_def]
    congr 2
    funext x
    exact Bool.and_comm ..

def own (worker : String) (past : History) : History := past.filter fun t => t.event.worker == worker

/-- A call for another worker took a pending request of this one for settled. -/
def Dropped (worker : String) (past : History) (request : String × Nat) : Prop :=
  request.1 = worker ∧ ∃ t ∈ past, t.event.worker ≠ worker ∧ request ∈ t.pre.book.pending ∧
    unsettled t.event.phases request = false

/-- What a call for another worker takes for settled, later calls for the worker itself do too:
the fleet states do not go back. -/
def Forward (past : History) : Prop :=
  past.Pairwise fun t u => ∀ request ∈ t.pre.book.pending, t.event.worker ≠ request.1 → u.event.worker = request.1 →
    unsettled t.event.phases request = false → unsettled u.event.phases request = false

instance (past : History) : Decidable (Forward past) := inferInstanceAs (Decidable (List.Pairwise _ _))

/-- `s'` is where the calls for the worker alone lead: it lacks nothing of the worker's but what
calls for others have pruned or settled already. -/
structure Mirrors (worker : String) (past : History) (s s' : State) : Prop where
  last : s'.last ≤ s.last
  stamps : Thins (Expired s.last) (only s.book worker).stamps s'.book.stamps
  pending : Thins (Dropped worker past) (only s.book worker).pending s'.book.pending

/-- A call for the worker: both books are settled to the same, so the answers are the same. -/
theorem mirrors_own (mirrors : Mirrors c.worker past s m) (taken : step s c = some s')
    (settled : ∀ request, Dropped c.worker past request → unsettled c.phases request = false) :
    ∃ c' m', SameCall c c' ∧ step m c' = some m' ∧ (c'.run m.book).1 = (c.run s.book).1 ∧
      Mirrors c.worker (past ++ [⟨s,c,s'⟩]) s' m' := by
  obtain ⟨inOrder,rfl⟩ := Option.ite_some_none_eq_some.mp taken
  obtain ⟨c',same,inOrder',stamps⟩ := exists_clock c s.book.stamps m.book.stamps inOrder mirrors.stamps mirrors.last
  have pending : m.book.pending.filter (unsettled c.phases) =
      (s.book.pending.filter (unsettled c.phases)).filter fun r => r.1 == c.worker := by
    rw [← mirrors.pending.filter_eq _ settled,only,List.filter_comm]
  have book : m.book.settle c.phases c'.clock = only (s.book.settle c.phases c.clock) c.worker := by
    rw [RestartBook.settle,stamps,pending]
    rfl
  have result : c'.run m.book = ((c.run s.book).1,only (c.run s.book).2 c.worker) := by
    rw [run_eq_decideOne,run_eq_decideOne,same.worker,same.phases,same.now,book,decideOne_only]
  refine ⟨c',⟨(c'.run m.book).2,c'.now⟩,same,if_pos inOrder',by rw [result],?_⟩
  refine ⟨Nat.le_of_eq same.now,?_,?_⟩
  · rw [result]
    exact .refl _
  · rw [result]
    exact .refl _

/-- A call for another worker may prune and settle, and no more. -/
theorem mirrors_other (mirrors : Mirrors worker past s m) (taken : step s c = some s')
    (other : c.worker ≠ worker) : Mirrors worker (past ++ [⟨s,c,s'⟩]) s' m := by
  obtain ⟨inOrder,rfl⟩ := Option.ite_some_none_eq_some.mp taken
  have later := inOrder.bounds.1
  have foreign : ((stamped ⟨s,c,⟨(c.run s.book).2,c.now⟩⟩).toList).filter (fun x => x.1 == worker) = [] := by
    simp only [stamped,answer]
    split <;> simp [other]
  have pending : (only (c.run s.book).2 worker).pending =
      ((s.book.pending.filter (unsettled c.phases)).filter fun r => r.1 == worker) := by
    cases done : (c.run s.book).1 with
    | ok _ =>
      obtain ⟨_,_,_,_,_,result⟩ := accept_ok s.book c.phases c.worker c.clock c.now done
      have result : (c.run s.book).2 = _ := result
      simp [result,only,RestartBook.settle,other]
    | error code =>
      have result : (c.run s.book).2 = _ := accept_error s.book c.phases c.worker c.clock c.now done
      simp [result,only,RestartBook.settle]
  have remember (request) (dropped : Dropped worker past request) :
      Dropped worker (past ++ [⟨s,c,⟨(c.run s.book).2,c.now⟩⟩]) request := by
    obtain ⟨here,t,member,rest⟩ := dropped
    exact ⟨here,t,List.mem_append_left _ member,rest⟩
  refine ⟨Nat.le_trans mirrors.last later,?_,?_⟩
  · change Thins (Expired c.now) ((c.run s.book).2.stamps.filter _) _
    rw [run_stamps ⟨s,c,⟨(c.run s.book).2,c.now⟩⟩,List.filter_append,foreign,List.append_nil]
    exact ((retainRecent_thins c s.book.stamps inOrder).filter _).trans
      (mirrors.stamps.mono fun _ expired => expired.mono later)
  · rw [pending,List.filter_comm]
    refine Thins.trans (thins_filter _ _ ?_) (mirrors.pending.mono remember)
    intro request member gone
    obtain ⟨inside,here⟩ := List.mem_filter.mp member
    exact ⟨by simpa using here,_,List.mem_append_right _ (List.mem_singleton_self _),other,inside,gone⟩

theorem run_alone (run : Run step (initial last) past s) (forward : Forward past) (worker : String) :
    ∃ past' s', Run step (initial last) past' s' ∧
      List.Forall₂ (fun t t' => SameCall t.event t'.event ∧ answer t' = answer t) (own worker past) past' ∧
      Mirrors worker past s s' := by
  induction run with
  | nil => exact ⟨[],_,.nil,.nil,Nat.le_refl _,.nil,.nil⟩
  | @snoc past s c s' _ taken ih =>
    obtain ⟨before,_,meets⟩ := List.pairwise_append.mp forward
    obtain ⟨past',m,alone,same,mirrors⟩ := ih before
    by_cases here : c.worker = worker
    · subst here
      have settled (request) (dropped : Dropped c.worker past request) : unsettled c.phases request = false := by
        obtain ⟨named,t,member,other,pending,gone⟩ := dropped
        exact meets t member _ (List.mem_singleton_self _) request pending (named ▸ other) named.symm gone
      obtain ⟨c',m',sameCall,taken',answers,mirrors'⟩ := mirrors_own mirrors taken settled
      refine ⟨past' ++ [⟨m,c',m'⟩],m',alone.snoc taken',?_,mirrors'⟩
      rw [own,List.filter_append,← own]
      refine List.rel_append same ?_
      simpa using ⟨sameCall,answers⟩
    · refine ⟨past',m,alone,?_,mirrors_other mirrors taken here⟩
      rw [own,List.filter_append,← own]
      simpa [here] using same

end Alone

/-- At most five restarts of a worker are accepted in any 60 s; the budget refuses a call only
if five of its worker were accepted in the 60 s before it; and, unless a call for another
worker settles a request on a fleet state that is behind, every answer is the one that the
calls for that worker alone would get. -/
theorem restart_budget (last : Nat) (past : History) (s : State) (run : Run step (initial last) past s) :
    (∀ worker, Limited explicitRestartWindow explicitRestartMax (acceptedAt worker past)) ∧
    (∀ before t after, past = before ++ t :: after → answer t = .error .restartBudgetExhausted →
      explicitRestartMax ≤ ((acceptedAt t.event.worker before).filter fun at_ =>
        decide (at_ ≤ t.event.clock 0 ∧ t.event.clock 0 < at_ + explicitRestartWindow)).length) ∧
    (Forward past → ∀ worker, ∃ past' s', Run step (initial last) past' s' ∧
      List.Forall₂ (fun t t' => SameCall t.event t'.event ∧ answer t' = answer t) (own worker past) past') := by
  refine ⟨(run_books run).limited,?_,?_⟩
  · rintro before t after rfl refused
    obtain ⟨front,taken,_⟩ := run.split
    exact (run_books front).exhausted t.event (Option.ite_some_none_eq_some.mp taken).1 refused
  · intro forward worker
    obtain ⟨past',s',alone,same,_⟩ := run_alone run forward worker
    exact ⟨past',s',alone,same⟩

def running (count : Nat) : Phases := fun w =>
  if w = "api" then some (.running,count) else if w = "db" then some (.running,0) else none

/-- Six restarts of `api` and one of `db` within a second: the sixth is refused. -/
theorem restart_budget_sixth : ∃ past s, Run step (initial 0) past s ∧
    (past.map answer).getLast? = some (.error .restartBudgetExhausted) ∧
    acceptedAt "api" past = [1,2,3,4,5] ∧
    ∃ past' s', Run step (initial 0) past' s' ∧
      List.Forall₂ (fun t t' => SameCall t.event t'.event ∧ answer t' = answer t) (own "api" past) past' := by
  let call (w : String) (n : Nat) : Call := ⟨w,running n,fun _ => n,n⟩
  obtain ⟨past,s,run,refused,five,forward⟩ := exists_run step (initial 0)
    [call "api" 1,call "api" 2,call "api" 3,call "db" 3,call "api" 4,call "api" 5,call "api" 6]
    (fun past _ => (past.map answer).getLast? = some (.error .restartBudgetExhausted) ∧
      acceptedAt "api" past = [1,2,3,4,5] ∧ Forward past) (by decide +kernel)
  exact ⟨past,s,run,refused,five,(restart_budget 0 past s run).2.2 forward "api"⟩

/-- Two calls for one worker in a row that show it in the same state are not both accepted. -/
theorem second_refused (run : Run step (initial last) [t,u] s) (worker : u.event.worker = t.event.worker)
    (shows_ : u.event.phases t.event.worker = t.event.phases t.event.worker) (first : answer t = .ok ()) :
    answer u = .error .alreadyRestarting := by
  have whole : Run step (initial last) ([] ++ t :: [u]) s := run
  obtain ⟨_,taken,rest⟩ := whole.split
  have single : Run step t.post ([] ++ u :: []) s := rest
  obtain ⟨start,_,_⟩ := single.split
  have book : u.pre.book = (t.event.run t.pre.book).2 := by
    rw [start.of_nil]
    exact congrArg State.book (Option.ite_some_none_eq_some.mp taken).2.symm
  obtain ⟨phase,count,shown,alive,_,result⟩ := accept_ok t.pre.book t.event.phases t.event.worker t.event.clock
    t.event.now first
  have recorded : (t.event.worker,count) ∈ u.pre.book.pending := by
    rw [book]
    change _ ∈ (RestartBook.accept _ _ _ _ _).2.pending
    rw [result]
    simp
  have standing : unsettled u.event.phases (t.event.worker,count) = true := by
    rcases alive with rfl | rfl <;> simp [unsettled,shows_,shown]
  have pending : (u.event.worker,count) ∈ (u.pre.book.settle u.event.phases u.event.clock).pending := by
    rw [worker]
    exact (mem_settle_pending ..).mpr ⟨recorded,standing⟩
  exact accept_pending u.pre.book u.event.phases u.event.worker u.event.clock u.event.now pending

/-- A restart of `api` is accepted at count 1; a call for `db` that still shows count 0 takes it
for settled, and a second restart of `api` is accepted. -/
theorem other_worker_settles : ¬ ∀ last past s, Run step (initial last) past s →
    (∀ worker, Limited explicitRestartWindow explicitRestartMax (acceptedAt worker past)) ∧
    (∀ before t after, past = before ++ t :: after → answer t = .error .restartBudgetExhausted →
      explicitRestartMax ≤ ((acceptedAt t.event.worker before).filter fun at_ =>
        decide (at_ ≤ t.event.clock 0 ∧ t.event.clock 0 < at_ + explicitRestartWindow)).length) ∧
    ∀ worker, ∃ past' s', Run step (initial last) past' s' ∧
      List.Forall₂ (fun t t' => SameCall t.event t'.event ∧ answer t' = answer t) (own worker past) past' := by
  intro holds
  let call (w : String) (n at_ : Nat) : Call := ⟨w,running n,fun _ => at_,at_⟩
  obtain ⟨past,s,run,two,same⟩ := exists_run step (initial 0) [call "api" 1 1,call "db" 0 2,call "api" 1 3]
    (fun past _ => (own "api" past).length = 2 ∧ ∀ t ∈ own "api" past,
      t.event.worker = "api" ∧ t.event.phases "api" = some (.running,1) ∧ answer t = .ok ()) (by decide +kernel)
  obtain ⟨past',s',alone,matched⟩ := (holds 0 past s run).2.2 "api"
  obtain ⟨t,u,shape⟩ := List.length_eq_two.mp two
  obtain ⟨worker,shown,ok⟩ := same t (by simp [shape])
  obtain ⟨worker',shown',ok'⟩ := same u (by simp [shape])
  rw [shape] at matched
  cases matched with
  | @cons _ t' _ _ sameT matched =>
    cases matched with
    | @cons _ u' _ _ sameU matched =>
      cases matched
      have refused := second_refused alone (by rw [sameU.1.worker,sameT.1.worker,worker,worker'])
        (by rw [sameU.1.phases,sameT.1.phases,sameT.1.worker,worker,shown,shown']) (sameT.2.trans ok)
      rw [sameU.2,ok'] at refused
      contradiction

end Malkuth.Mcp.Budget
