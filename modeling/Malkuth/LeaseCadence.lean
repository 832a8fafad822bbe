import Malkuth.Lease
import Mathlib.Tactic.Ring

/-! When the renew thread of `lease.rs` writes. Times are nanoseconds since the epoch; a sleep
lasts as long as it was asked to, file operations take no time, and nobody else is at the lease
file. What the thread does to the file is `Lease`'s. -/
namespace Malkuth.Lease.Cadence

open Transition

def milli : Nat := 10^6

def nap : Nat := 50 * milli

/-- `now_ms()`: the milliseconds of the clock, narrowed to `u64`. -/
def nowMs (clock : Nat) : Nat := clock / milli % 2^64

def renewStep (ttl : Nat) : Nat := max ttl (1000 * milli) / 3

/-- `slept` is how much of the current sleep is over, `stamped` the clock at the last write. -/
structure Holder where
  lease : State
  clock : Nat
  stamped : Nat
  waited : Nat
  slept : Nat

inductive Tick where
  | pass (ns : Nat)
  /-- The thread wakes up from its sleep of 50 ms. -/
  | wake
  | release

section Model

variable (o : String) (ttl : Nat)

def taking : List Event := .begin o (ttl / milli) :: List.replicate 6 (.go o .ok)

def acquire (lease tmp : File) (clock : Nat) : Option Holder :=
  (execute Lease.step (initial lease tmp (nowMs clock)) (taking o ttl)).map fun (_,s) => ⟨s,clock,clock,0,0⟩

def writeAtomic (s : State) : Option State :=
  (execute Lease.step s (List.replicate 4 (.renew o .ok))).map Prod.snd

def Holder.pass (h : Holder) (ns : Nat) : Holder :=
  { h with lease := { h.lease with now := nowMs (h.clock + ns) }, clock := h.clock + ns, slept := h.slept + ns }

section Pass

variable (h : Holder) (ns : Nat)

@[simp] theorem pass_point (o : String) : (h.pass ns).lease.point o = h.lease.point o := rfl
@[simp] theorem pass_clock : (h.pass ns).clock = h.clock + ns := rfl
@[simp] theorem pass_stamped : (h.pass ns).stamped = h.stamped := rfl
@[simp] theorem pass_waited : (h.pass ns).waited = h.waited := rfl
@[simp] theorem pass_slept : (h.pass ns).slept = h.slept + ns := rfl

end Pass

def Holder.wake (h : Holder) : Option Holder :=
  if h.waited + nap < renewStep ttl then some { h with waited := h.waited + nap, slept := 0 }
  else (writeAtomic o h.lease).map fun lease => { h with lease := lease, stamped := h.clock, waited := 0, slept := 0 }

/-- Up to the call of `release`; what comes after it is `Lease`'s. -/
def step (h : Holder) (t : Tick) : Option Holder :=
  if h.lease.point o = .held .asleep then
    match t with
    | .pass ns => if h.slept + ns ≤ nap then some (h.pass ns) else none
    | .wake => if h.slept = nap then h.wake o ttl else none
    | .release => (h.lease.finish o .release).map fun lease => { h with lease := lease }
  else none

end Model

def Kept (o : String) (ttl : Nat) (h : Holder) : Prop :=
  ∃ rec, h.lease.lease = .record rec ∧ rec.owner = o ∧ nowMs h.clock < rec.expiresAtMs ∧
    rec.expiresAtMs = h.stamped / milli + ttl / milli

def period (ttl : Nat) : Nat := (renewStep ttl + (nap - 1)) / nap * nap

structure At (s : State) (o : String) (p : Point) (lease tmp : File) (now ttlMs : Nat) : Prop where
  point : s.point o = p
  lease : s.lease = lease
  tmp : s.tmp = tmp
  now : s.now = now
  ttlMs : (s.acquirer o).ttlMs = ttlMs

section At

variable {s : State} {o : String} {p : Point} {lease tmp : File} {now ttlMs : Nat} {r : LeaseRecord}

theorem At.move (at_ : At s o p lease tmp now ttlMs) (q : Point) : At (s.move o q) o q lease tmp now ttlMs :=
  ⟨by simp [State.move,State.point],at_.lease,at_.tmp,at_.now,by simp [State.move,at_.ttlMs]⟩

theorem At.writeTmp (at_ : At s o p lease tmp now ttlMs) (r : LeaseRecord) :
    At (s.writeTmp r .ok) o p lease (.record r) now ttlMs :=
  ⟨at_.point,at_.lease,rfl,at_.now,at_.ttlMs⟩

theorem At.rename (at_ : At s o p lease (.record r) now ttlMs) :
    ∃ s', s.rename = some s' ∧ At s' o p (.record r) .absent now ttlMs := by
  let own : Acquirer := { s.acquirer r.owner with installed := some r }
  let put : State := { s with lease := .record r, tmp := .absent, acquirer := Function.update s.acquirer r.owner own }
  have renamed : s.rename = some put := by
    rw [State.rename,at_.tmp]
  refine ⟨put,renamed,?_,rfl,rfl,at_.now,?_⟩
  · by_cases same : o = r.owner
    · subst same
      simpa [put,own,State.point] using at_.point
    · simpa [put,State.point,same] using at_.point
  · by_cases same : o = r.owner
    · subst same
      simpa [put,own] using at_.ttlMs
    · simpa [put,same] using at_.ttlMs

/-! `try_take` and the renew thread, a file-system call at a time. -/

theorem go_reading (at_ : At s o .reading lease tmp now ttlMs) :
    ∃ s', Lease.step s (.go o .ok) = some s' ∧ At s' o (.deciding lease.parsed) lease tmp now ttlMs := by
  refine ⟨_,?_,at_.move _⟩
  simp only [Lease.step,State.advance,at_.point,State.seen,at_.lease]

theorem go_deciding (at_ : At s o (.deciding seen) lease tmp now ttlMs) : ∃ s', Lease.step s (.go o .ok) = some s' ∧
    At s' o (if blocked now o seen then .refused else .stamping) lease tmp now ttlMs := by
  refine ⟨_,?_,at_.move _⟩
  simp only [Lease.step,State.advance,at_.point,at_.now]

theorem go_stamping (at_ : At s o .stamping lease tmp now ttlMs) : ∃ s', Lease.step s (.go o .ok) = some s' ∧
    At s' o (.writing (freshRecord o now ttlMs)) lease tmp now ttlMs := by
  refine ⟨_,?_,at_.move _⟩
  simp only [Lease.step,State.advance,at_.point,at_.now,at_.ttlMs]

theorem go_writing (at_ : At s o (.writing r) lease tmp now ttlMs) : ∃ s', Lease.step s (.go o .ok) = some s' ∧
    At s' o .renamingTmp lease (.record r) now ttlMs := by
  refine ⟨_,?_,(at_.writeTmp r).move _⟩
  simp only [Lease.step,State.advance,at_.point,if_true]

theorem go_renamingTmp (at_ : At s o .renamingTmp lease (.record r) now ttlMs) :
    ∃ s', Lease.step s (.go o .ok) = some s' ∧ At s' o .confirming (.record r) .absent now ttlMs := by
  obtain ⟨renamed,put,there⟩ := at_.rename
  refine ⟨_,?_,there.move _⟩
  simp only [Lease.step,State.advance,at_.point,put]

theorem go_confirming (at_ : At s o .confirming (.record r) tmp now ttlMs) (own : r.owner = o) :
    ∃ s', Lease.step s (.go o .ok) = some s' ∧ At s' o (.held .asleep) (.record r) tmp now ttlMs := by
  refine ⟨_,?_,at_.move _⟩
  simp only [Lease.step,State.advance,at_.point,State.seen,at_.lease,File.parsed,Option.map_some,own,if_true]

theorem renew_at (at_ : At s o (.held renewal) lease tmp now ttlMs)
    (moved : s.renewal o .ok renewal = (s',renewal')) (there : At s' o p lease' tmp' now ttlMs) :
    ∃ s', Lease.step s (.renew o .ok) = some s' ∧ At s' o (.held renewal') lease' tmp' now ttlMs := by
  refine ⟨_,?_,there.move _⟩
  simp only [Lease.step,State.renew,at_.point,moved]

/-- The record is stamped, written and renamed into place. -/
theorem writeAtomic_at (at_ : At s o (.held .asleep) lease tmp now ttlMs) : ∃ s', writeAtomic o s = some s' ∧
    At s' o (.held .asleep) (.record (freshRecord o now ttlMs)) .absent now ttlMs := by
  obtain ⟨s₁,woke,at₁⟩ := renew_at at_ rfl at_
  obtain ⟨s₂,stamped,at₂⟩ := renew_at at₁ rfl at₁
  rw [at₁.now,at₁.ttlMs] at at₂
  obtain ⟨s₃,wrote,at₃⟩ := renew_at at₂ rfl (at₂.writeTmp _)
  rw [if_pos rfl] at at₃
  obtain ⟨renamed,put,there⟩ := at₃.rename
  have moved : s₃.renewal o .ok .renamingTmp = (renamed,.asleep) := by simp only [State.renewal,put]
  obtain ⟨s₄,installed,at₄⟩ := renew_at at₃ moved there
  refine ⟨s₄,?_,at₄⟩
  simp only [writeAtomic,List.replicate,execute,woke,stamped,wrote,installed,Option.bind_eq_bind,Option.bind_some]
  rfl

/-- A caller has its guard, unless somebody's unexpired record is in the way. -/
theorem take_at (at_ : At s o .reading lease tmp now ttlMs)
    (taken : execute Lease.step s (List.replicate 6 (.go o .ok)) = some (past,s')) :
    At s' o (.held .asleep) (.record (freshRecord o now ttlMs)) .absent now ttlMs := by
  obtain ⟨s₁,reads,at₁⟩ := go_reading at_
  obtain ⟨s₂,decides,at₂⟩ := go_deciding at₁
  cases free : blocked now o lease.parsed
  · rw [free] at at₂
    obtain ⟨s₃,stamps,at₃⟩ := go_stamping at₂
    obtain ⟨s₄,writes,at₄⟩ := go_writing at₃
    obtain ⟨s₅,renames,at₅⟩ := go_renamingTmp at₄
    obtain ⟨s₆,confirms,at₆⟩ := go_confirming at₅ rfl
    simp only [List.replicate,execute,reads,decides,stamps,writes,renames,confirms,Option.bind_eq_bind,Option.bind_some] at taken
    obtain ⟨_,rfl⟩ := Prod.mk.inj (Option.some.inj taken)
    exact at₆
  · rw [free] at at₂
    have refused : Lease.step s₂ (.go o .ok) = none := by simp only [Lease.step,State.advance,at₂.point,if_true]
    simp [List.replicate,execute,reads,decides,refused] at taken

end At

/-- A caller that is not refused has written its record and has its guard. -/
theorem acquire_at (taken : acquire o ttl lease tmp clock = some h) :
    At h.lease o (.held .asleep) (.record (freshRecord o (nowMs clock) (ttl / milli))) .absent (nowMs clock) (ttl / milli) ∧
      h.clock = clock ∧ h.stamped = clock ∧ h.waited = 0 ∧ h.slept = 0 := by
  obtain ⟨⟨past,s⟩,ran,rfl⟩ := Option.map_eq_some_iff.mp taken
  refine ⟨?_,rfl,rfl,rfl,rfl⟩
  simp only [taking,execute,Option.bind_eq_bind,Option.bind_eq_some_iff] at ran
  obtain ⟨begun,first,⟨later,s'⟩,rest,same⟩ := ran
  obtain ⟨_,rfl⟩ := Prod.mk.inj (Option.some.inj same)
  rw [Lease.step] at first
  obtain ⟨_,rfl⟩ := Option.ite_some_none_eq_some.mp first
  refine take_at ⟨?_,rfl,rfl,rfl,?_⟩ rest
  · simp [State.point]
  · simp

theorem step_pass (ttl : Nat) (held : h.lease.point o = .held .asleep) (room : h.slept + ns ≤ nap) :
    step o ttl h (.pass ns) = some (h.pass ns) := by
  rw [step,if_pos held]
  exact if_pos room

theorem step_nap (held : h.lease.point o = .held .asleep) (woken : h.slept = nap) (short : h.waited + nap < renewStep ttl) :
    step o ttl h .wake = some { h with waited := h.waited + nap, slept := 0 } := by
  rw [step,if_pos held]
  simp only [if_pos woken,Holder.wake,if_pos short]

theorem step_write (held : h.lease.point o = .held .asleep) (woken : h.slept = nap) (long : ¬ h.waited + nap < renewStep ttl) :
    ∃ lease, step o ttl h .wake = some { h with lease := lease, stamped := h.clock, waited := 0, slept := 0 } ∧
      lease.lease = .record (freshRecord o h.lease.now (h.lease.acquirer o).ttlMs) ∧ lease.point o = .held .asleep ∧
      lease.now = h.lease.now ∧ (lease.acquirer o).ttlMs = (h.lease.acquirer o).ttlMs := by
  obtain ⟨lease,written,there⟩ := writeAtomic_at ⟨held,rfl,rfl,rfl,rfl⟩
  refine ⟨lease,?_,there.lease,there.point,there.now,there.ttlMs⟩
  rw [step,if_pos held]
  simp only [if_pos woken,Holder.wake,if_neg long,written,Option.map_some]

/-- All that a step can do. -/
theorem step_cases (taken : step o ttl h t = some h') : h.lease.point o = .held .asleep ∧
    ((∃ ns, h.slept + ns ≤ nap ∧ h' = h.pass ns) ∨
     (h.slept = nap ∧ h.waited + nap < renewStep ttl ∧ h' = { h with waited := h.waited + nap, slept := 0 }) ∨
     (∃ lease, h.slept = nap ∧ ¬ h.waited + nap < renewStep ttl ∧
       h' = { h with lease := lease, stamped := h.clock, waited := 0, slept := 0 } ∧
       lease.lease = .record (freshRecord o h.lease.now (h.lease.acquirer o).ttlMs) ∧ lease.now = h.lease.now ∧
       (lease.acquirer o).ttlMs = (h.lease.acquirer o).ttlMs) ∨
     h' = { h with lease := h.lease.move o (.stopping .asleep .release) }) := by
  obtain ⟨held,_⟩ := Option.ite_none_right_eq_some.mp taken
  refine ⟨held,?_⟩
  cases t with
  | pass ns =>
    rw [step,if_pos held] at taken
    obtain ⟨room,here⟩ := Option.ite_none_right_eq_some.mp taken
    exact .inl ⟨ns,room,(Option.some.inj here).symm⟩
  | wake =>
    have woken : h.slept = nap := by
      rw [step,if_pos held] at taken
      exact (Option.ite_none_right_eq_some.mp taken).1
    by_cases short : h.waited + nap < renewStep ttl
    · rw [step_nap held woken short] at taken
      exact .inr (.inl ⟨woken,short,(Option.some.inj taken).symm⟩)
    · obtain ⟨lease,written,record,_,now,ttlMs⟩ := step_write held woken short
      rw [written] at taken
      exact .inr (.inr (.inl ⟨lease,woken,short,(Option.some.inj taken).symm,record,now,ttlMs⟩))
  | release =>
    rw [step,if_pos held] at taken
    simp only [State.finish,held,Option.map_some,Option.some.injEq] at taken
    exact .inr (.inr (.inr taken.symm))

structure Steady (o : String) (ttl start : Nat) (h : Holder) : Prop where
  ttlMs : (h.lease.acquirer o).ttlMs = ttl / milli
  now : h.lease.now = nowMs h.clock
  record : h.lease.lease = .record (freshRecord o (nowMs h.stamped) (ttl / milli))
  clock : h.clock = h.stamped + h.waited + h.slept
  naps : ∃ j, h.waited = j * nap
  short : h.waited < renewStep ttl
  slept : h.slept ≤ nap
  turns : ∃ n, h.stamped = start + n * period ttl

theorem renewStep_pos (ttl : Nat) : 0 < renewStep ttl := by
  simp only [renewStep,milli]
  omega

/-- The sleep that ends a turn ends a period. -/
theorem period_eq (short : j * nap < renewStep ttl) (done : ¬ j * nap + nap < renewStep ttl) :
    period ttl = j * nap + nap := by
  simp only [period,nap,milli] at *
  omega

theorem acquire_steady (taken : acquire o ttl lease tmp clock = some h) : Steady o ttl clock h := by
  obtain ⟨there,clock,stamped,waited,slept⟩ := acquire_at taken
  refine ⟨there.ttlMs,?_,?_,?_,⟨0,?_⟩,?_,?_,⟨0,?_⟩⟩
  · rw [there.now,clock]
  · rw [there.lease,stamped]
  · omega
  · omega
  · rw [waited]
    exact renewStep_pos ttl
  · omega
  · omega

theorem step_steady (steady : Steady o ttl start h) (taken : step o ttl h t = some h') : Steady o ttl start h' := by
  obtain ⟨j,naps⟩ := steady.naps
  obtain ⟨n,turns⟩ := steady.turns
  obtain ⟨_,⟨ns,room,rfl⟩ | ⟨woken,short,rfl⟩ | ⟨lease,woken,long,rfl,record,now,ttlMs⟩ | rfl⟩ := step_cases taken
  · refine ⟨steady.ttlMs,rfl,steady.record,?_,⟨j,naps⟩,steady.short,room,⟨n,turns⟩⟩
    have clock := steady.clock
    simp only [Holder.pass]
    omega
  · refine ⟨steady.ttlMs,steady.now,steady.record,?_,⟨j + 1,?_⟩,short,Nat.zero_le _,⟨n,turns⟩⟩
    · have clock := steady.clock
      simp only
      omega
    · simp only [naps]
      ring
  · have whole := period_eq (naps ▸ steady.short) (naps ▸ long)
    refine ⟨ttlMs.trans steady.ttlMs,now.trans steady.now,?_,rfl,⟨0,by simp⟩,renewStep_pos ttl,Nat.zero_le _,⟨n + 1,?_⟩⟩
    · rw [record,steady.now,steady.ttlMs]
    · have clock := steady.clock
      simp only [Nat.add_mul,Nat.one_mul]
      omega
  · refine ⟨?_,steady.now,steady.record,steady.clock,⟨j,naps⟩,steady.short,steady.slept,⟨n,turns⟩⟩
    simp [State.move,steady.ttlMs]

theorem run_steady (taken : acquire o ttl lease tmp clock = some h) (run : Run (step o ttl) h past h') :
    Steady o ttl clock h' :=
  run.always (acquire_steady taken) fun _ _ _ => step_steady

theorem step_clock (taken : step o ttl h t = some h') : h.clock ≤ h'.clock := by
  obtain ⟨_,⟨ns,_,rfl⟩ | ⟨_,_,rfl⟩ | ⟨lease,_,_,rfl,_⟩ | rfl⟩ := step_cases taken
  · exact Nat.le_add_right ..
  · exact le_refl _
  · exact le_refl _
  · exact le_refl _

/-- A step is made of steps of `Lease`, as long as the milliseconds of the clock fit. -/
theorem step_lease (now : h.lease.now = nowMs h.clock) (taken : step o ttl h t = some h') (fits : h'.clock / milli < 2^64) :
    ∃ past, Run Lease.step h.lease past h'.lease := by
  have before : h.clock / milli < 2^64 := (Nat.div_le_div_right (step_clock taken)).trans_lt fits
  obtain ⟨held,_⟩ := step_cases taken
  cases t with
  | pass ns =>
    rw [step,if_pos held] at taken
    obtain ⟨_,here⟩ := Option.ite_none_right_eq_some.mp taken
    obtain rfl := Option.some.inj here
    rw [pass_clock] at fits
    have later : h.clock / milli ≤ (h.clock + ns) / milli := Nat.div_le_div_right (Nat.le_add_right ..)
    have until_ : h.lease.now + ((h.clock + ns) / milli - h.clock / milli) = (h.clock + ns) / milli := by
      rw [now,nowMs,Nat.mod_eq_of_lt before,Nat.add_sub_cancel' later]
    refine ⟨_,Run.one (e := .tick ((h.clock + ns) / milli - h.clock / milli)) ?_⟩
    rw [Lease.step,until_,if_pos fits,Holder.pass,nowMs,Nat.mod_eq_of_lt fits]
  | wake =>
    rw [step,if_pos held] at taken
    obtain ⟨_,here⟩ := Option.ite_none_right_eq_some.mp taken
    rw [Holder.wake] at here
    split at here
    · obtain rfl := Option.some.inj here
      exact ⟨_,.nil⟩
    · obtain ⟨lease,written,rfl⟩ := Option.map_eq_some_iff.mp here
      obtain ⟨⟨past,_⟩,done,rfl⟩ := Option.map_eq_some_iff.mp written
      exact ⟨past,execute_run _ done⟩
  | release =>
    rw [step,if_pos held] at taken
    obtain ⟨lease,finished,rfl⟩ := Option.map_eq_some_iff.mp taken
    have finished : Lease.step h.lease (.finish o .release) = some lease := finished
    exact ⟨_,Run.one finished⟩

/-- A guard on its schedule is one of `Lease`'s, from any files that its owner found. -/
theorem run_lease (taken : acquire o ttl lease tmp clock = some h) (run : Run (step o ttl) h past h')
    (fits : h'.clock / milli < 2^64) : ∃ past, Run Lease.step (initial lease tmp (nowMs clock)) past h'.lease := by
  induction run with
  | nil =>
    obtain ⟨⟨past,_⟩,done,rfl⟩ := Option.map_eq_some_iff.mp taken
    exact ⟨past,execute_run _ done⟩
  | snoc run last ih =>
    obtain ⟨front,reached⟩ := ih ((Nat.div_le_div_right (step_clock last)).trans_lt fits)
    obtain ⟨back,rest⟩ := step_lease (run_steady taken run).now last fits
    exact ⟨_,reached.append rest⟩

theorem expiry_exact (fits : stamped / milli + ttlMs < 2^64) :
    (freshRecord o (nowMs stamped) ttlMs).expiresAtMs = stamped / milli + ttlMs := by
  simp only [freshRecord,expiresAtMs,nowMs]
  have lease := (Nat.le_add_left ..).trans_lt fits
  have clock := (Nat.le_add_right ..).trans_lt fits
  rw [Nat.mod_eq_of_lt lease,Nat.mod_eq_of_lt clock,Nat.mod_eq_of_lt fits]

/-- A turn is shorter than a lease of more than 350 ms. -/
theorem period_lt (long : 351 ≤ ttl / milli) (stamped : Nat) :
    (stamped + period ttl) / milli < stamped / milli + ttl / milli := by
  simp only [period,renewStep,nap,milli] at *
  omega

/-- And as long as any other. -/
theorem le_period (short : ttl / milli < 351) (stamped : Nat) :
    stamped / milli + ttl / milli ≤ (stamped + period ttl) / milli := by
  simp only [period,renewStep,nap,milli] at *
  omega

theorem le_period_of (step_ : waited < renewStep ttl) (naps : waited = j * nap) : waited + nap ≤ period ttl := by
  subst naps
  simp only [period,nap,milli] at *
  omega

/-- What keeps a lease from lapsing until `last`. -/
def Sound (ttl start last : Nat) : Prop :=
  (351 ≤ ttl / milli ∨ last / milli < start / milli + ttl / milli) ∧
    ∀ n, start + n * period ttl ≤ last → (start + n * period ttl) / milli + ttl / milli < 2^64

theorem Steady.kept (steady : Steady o ttl start h) (early : h.clock ≤ last) (sound : Sound ttl start last) :
    Kept o ttl h := by
  obtain ⟨j,naps⟩ := steady.naps
  obtain ⟨n,turns⟩ := steady.turns
  have clock := steady.clock
  have slept := steady.slept
  have turn := le_period_of steady.short naps
  have fits : h.stamped / milli + ttl / milli < 2^64 := by
    rw [turns]
    apply sound.2
    omega
  have unexpired : h.clock / milli < h.stamped / milli + ttl / milli := by
    rcases sound.1 with long | soon
    · have within := period_lt long h.stamped
      have before : h.clock / milli ≤ (h.stamped + period ttl) / milli := Nat.div_le_div_right (by omega)
      exact before.trans_lt within
    · have before : h.clock / milli ≤ last / milli := Nat.div_le_div_right early
      have after : start / milli ≤ h.stamped / milli := Nat.div_le_div_right (by omega)
      omega
  have exact_ := expiry_exact (o := o) fits
  refine ⟨_,steady.record,rfl,?_,exact_⟩
  rw [exact_,nowMs,Nat.mod_eq_of_lt (unexpired.trans fits)]
  exact unexpired

section Reached

variable (o : String) (ttl : Nat) (h : Holder)

/-- The guard is held at the start of a sleep, so many sleeps after the last write. -/
def Reached (stamped j : Nat) : Prop :=
  ∃ past h', Run (step o ttl) h past h' ∧ h'.lease.point o = .held .asleep ∧ h'.stamped = stamped ∧ h'.waited = j * nap ∧
    h'.slept = 0

theorem reached_nap (reached : Reached o ttl h stamped j) (short : j * nap + nap < renewStep ttl) :
    Reached o ttl h stamped (j + 1) := by
  obtain ⟨past,h',run,held,at_,waited,slept⟩ := reached
  have room : h'.slept + nap ≤ nap := by rw [slept,Nat.zero_add]
  have asleep := run.snoc (step_pass ttl held room)
  have woken : (h'.pass nap).slept = nap := by rw [pass_slept,slept,Nat.zero_add]
  have short' : (h'.pass nap).waited + nap < renewStep ttl := by rwa [pass_waited,waited]
  refine ⟨_,_,asleep.snoc (step_nap ((pass_point ..).trans held) woken short'),(pass_point ..).trans held,
    (pass_stamped h' nap).trans at_,?_,rfl⟩
  calc (h'.pass nap).waited + nap
    _ = j * nap + nap := by rw [pass_waited,waited]
    _ = (j + 1) * nap := (Nat.succ_mul j nap).symm

/-- Every sleep of a turn is slept. -/
theorem reached_naps (reached : Reached o ttl h stamped 0) (j : Nat) (short : j * nap < renewStep ttl) :
    Reached o ttl h stamped j := by
  induction j with
  | zero => exact reached
  | succ j ih =>
    rw [Nat.add_mul,Nat.one_mul] at short
    exact reached_nap o ttl h (ih (by omega)) short

/-- And after the last of them the lease is renewed. -/
theorem reached_turn (clocks : ∀ past h', Run (step o ttl) h past h' → h'.clock = h'.stamped + h'.waited + h'.slept)
    (reached : Reached o ttl h stamped 0) : Reached o ttl h (stamped + period ttl) 0 := by
  obtain ⟨j,short,long⟩ : ∃ j, j * nap < renewStep ttl ∧ ¬ j * nap + nap < renewStep ttl := by
    refine ⟨(renewStep ttl - 1) / nap,?_⟩
    have some_ := renewStep_pos ttl
    simp only [nap,milli]
    omega
  obtain ⟨past,h',run,held,at_,waited,slept⟩ := reached_naps o ttl h reached j short
  have room : h'.slept + nap ≤ nap := by rw [slept,Nat.zero_add]
  have asleep := run.snoc (step_pass ttl held room)
  have woken : (h'.pass nap).slept = nap := by rw [pass_slept,slept,Nat.zero_add]
  have long' : ¬ (h'.pass nap).waited + nap < renewStep ttl := by rwa [pass_waited,waited]
  obtain ⟨lease,written,_,held',_⟩ := step_write ((pass_point ..).trans held) woken long'
  refine ⟨_,_,asleep.snoc written,held',?_,by rw [Nat.zero_mul],rfl⟩
  calc (h'.pass nap).clock
    _ = stamped + j * nap + 0 + nap := by rw [pass_clock,clocks _ _ run,at_,waited,slept]
    _ = stamped + period ttl := by rw [period_eq short long,Nat.add_zero,Nat.add_assoc]

end Reached

section Lapse

variable (taken : acquire o ttl lease tmp start = some h)
include taken

theorem reached_start : Reached o ttl h start 0 := by
  obtain ⟨there,_,stamped,waited,slept⟩ := acquire_at taken
  exact ⟨_,h,.nil,there.point,stamped,by rw [waited,Nat.zero_mul],slept⟩

/-- Every renewal comes. -/
theorem reached_turns (n : Nat) : Reached o ttl h (start + n * period ttl) 0 := by
  induction n with
  | zero =>
    rw [Nat.zero_mul,Nat.add_zero]
    exact reached_start taken
  | succ n ih =>
    rw [Nat.succ_mul,← Nat.add_assoc]
    exact reached_turn o ttl h (fun _ _ run => (run_steady taken run).clock) ih

/-- The record of the acquisition is there until the first renewal. -/
theorem reached_instant (clock : Nat) (later : start ≤ clock) (before : clock ≤ start + period ttl) :
    ∃ past h', Run (step o ttl) h past h' ∧ h'.lease.point o = .held .asleep ∧ h'.clock = clock ∧ h'.stamped = start := by
  obtain ⟨j,d,short,within,split_⟩ : ∃ j d, j * nap < renewStep ttl ∧ d ≤ nap ∧ clock = start + j * nap + d := by
    by_cases first : clock - start ≤ nap
    · refine ⟨0,clock - start,?_,first,?_⟩
      · rw [Nat.zero_mul]
        exact renewStep_pos ttl
      · omega
    · refine ⟨(clock - start - 1) / nap,(clock - start - 1) % nap + 1,?_,?_⟩
      · simp only [period,nap,milli] at *
        omega
      · simp only [period,nap,milli] at *
        omega
  obtain ⟨past,h',run,held,at_,waited,slept⟩ := reached_naps o ttl h (reached_start taken) j short
  have room : h'.slept + d ≤ nap := by rwa [slept,Nat.zero_add]
  refine ⟨_,h'.pass d,run.snoc (step_pass ttl held room),(pass_point ..).trans held,?_,(pass_stamped ..).trans at_⟩
  rw [pass_clock,(run_steady taken run).clock,at_,waited,slept,split_,Nat.add_zero]

/-- The expiry of a record that is kept is a `u64`. -/
theorem kept_fits (run : Run (step o ttl) h past h') (kept : Kept o ttl h') : h'.stamped / milli + ttl / milli < 2^64 := by
  obtain ⟨rec,record,_,_,exact_⟩ := kept
  rw [(run_steady taken run).record] at record
  obtain rfl := File.record.inj record
  rw [← exact_]
  exact Nat.mod_lt _ (by decide)

/-- A lease of at most 350 ms expires before its first renewal. -/
theorem lapses (atLeast : milli ≤ ttl) (short : ttl / milli < 351) : ∃ past h', Run (step o ttl) h past h' ∧
    (h'.lease.point o).isHeld = true ∧ h'.clock = (start / milli + ttl / milli) * milli ∧ ¬ Kept o ttl h' := by
  have some_ : 1 ≤ ttl / milli := (Nat.one_le_div_iff (by decide)).mpr atLeast
  have until_ := le_period short start
  obtain ⟨past,h',run,held,clock,at_⟩ := reached_instant taken ((start / milli + ttl / milli) * milli)
    (by simp only [milli] at *; omega) (by simp only [milli] at *; omega)
  refine ⟨past,h',run,by rw [held]; rfl,clock,?_⟩
  intro kept
  have whole := kept_fits taken run kept
  obtain ⟨rec,_,_,live,exact_⟩ := kept
  rw [at_] at whole exact_
  rw [exact_,clock,nowMs,Nat.mul_div_cancel _ (by decide),Nat.mod_eq_of_lt whole] at live
  exact absurd live (lt_irrefl _)

/-- Until `last`, the record of a guard that is held is unexpired and its expiry is exact, if and
only if the lease is longer than 350 ms or outlasts `last`, and every expiry fits into 64 bits. -/
theorem never_lapses_iff (atLeast : milli ≤ ttl) (last : Nat) :
    (∀ past h', Run (step o ttl) h past h' → (h'.lease.point o).isHeld = true → h'.clock ≤ last → Kept o ttl h') ↔
      Sound ttl start last := by
  constructor
  · intro kept
    refine ⟨?_,?_⟩
    · by_contra never
      obtain ⟨short,late⟩ := not_or.mp never
      obtain ⟨past,h',run,held,clock,lapsed⟩ := lapses taken atLeast (Nat.lt_of_not_le short)
      refine lapsed (kept past h' run held ?_)
      rw [clock]
      simp only [milli] at *
      omega
    · intro n early
      obtain ⟨past,h',run,held,at_,waited,slept⟩ := reached_turns taken n
      rw [Nat.zero_mul] at waited
      have clock : h'.clock = h'.stamped := by rw [(run_steady taken run).clock,waited,slept,Nat.add_zero]
      have fits := kept_fits taken run (kept past h' run (by rw [held]; rfl) (by rwa [clock,at_]))
      rwa [at_] at fits
  · intro sound past h' run _ early
    exact (run_steady taken run).kept early sound

end Lapse

def twoSeconds : Holder := (acquire "pid7-0-0" (2000 * milli) .absent .absent 0).get (by rfl)
def tenth : Holder := (acquire "pid7-0-0" (100 * milli) .absent .absent 0).get (by rfl)

theorem never_lapses_twoSeconds : Sound (2000 * milli) 0 (60000 * milli) ∧
    ∀ past h', Run (step "pid7-0-0" (2000 * milli)) twoSeconds past h' →
      (h'.lease.point "pid7-0-0").isHeld = true → h'.clock ≤ 60000 * milli → Kept "pid7-0-0" (2000 * milli) h' := by
  have sound : Sound (2000 * milli) 0 (60000 * milli) := by
    refine ⟨.inl (by decide),?_⟩
    intro n early
    have before := Nat.div_le_div_right (c := milli) early
    exact (Nat.add_le_add_right before _).trans_lt (by decide)
  exact ⟨sound,(never_lapses_iff (Option.some_get _).symm (by decide) _).mpr sound⟩

/-- It expires a quarter of a second before its renewal. -/
theorem tenth_lapses : ¬ ∀ (o : String) (ttl : Nat) (lease tmp : File) (start : Nat) (h : Holder), milli ≤ ttl →
    acquire o ttl lease tmp start = some h → ∀ past h', Run (step o ttl) h past h' →
    (h'.lease.point o).isHeld = true → Kept o ttl h' := by
  intro holds
  have taken : acquire "pid7-0-0" (100 * milli) .absent .absent 0 = some tenth := (Option.some_get _).symm
  obtain ⟨past,h',run,held,_,lapsed⟩ := lapses taken (by decide) (by decide)
  exact lapsed (holds _ _ _ _ _ _ (by decide) taken past h' run held)

end Malkuth.Lease.Cadence
