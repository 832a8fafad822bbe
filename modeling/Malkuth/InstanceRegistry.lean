import Malkuth.Transition
import Mathlib.Data.List.AList

/-! `InMemoryRegistry` of `registry.rs`. Entries are kept by group and id, and two of the calls
are told the id alone: they stop at the first group that has it, in the order of the hash map,
which may be any and may change. A poisoned lock is not modelled, since nothing under it panics. -/
namespace Malkuth.InstanceRegistry

open Transition

inductive InstanceRole where
  | active
  | draining
  deriving DecidableEq

structure InstanceInfo where
  instanceId : String
  group : String
  role : InstanceRole
  generation : Nat
  startedAt : String
  endpoint : Option String
  backend : Option String
  deriving DecidableEq

inductive RegistryError where
  | notFound (id : String)
  deriving DecidableEq

/-- A hash map with its entries in the order in which they are visited. -/
abbrev HashMap (β : Type) := AList fun _ : String => β

abbrev Members := HashMap InstanceInfo

structure InMemoryRegistry where
  byGroup : HashMap Members
  deriving DecidableEq

namespace InMemoryRegistry

variable (s : InMemoryRegistry)

def new : InMemoryRegistry := ⟨∅⟩

def register (info : InstanceInfo) : InMemoryRegistry :=
  let members := (s.byGroup.lookup info.group).getD ∅
  ⟨s.byGroup.insert info.group (members.insert info.instanceId info)⟩

/-- The first group that is visited and has the id, with its members and the entry. -/
def find (id : String) : Option (String × Members × InstanceInfo) :=
  s.byGroup.entries.findSome? fun ⟨group,members⟩ => (members.lookup id).map fun info => (group,members,info)

def setRole (id : String) (role : InstanceRole) : Except RegistryError Unit × InMemoryRegistry :=
  match s.find id with
  | some (group,members,info) => (.ok (),⟨s.byGroup.replace group (members.replace id { info with role := role })⟩)
  | none => (.error (.notFound id),s)

def deregister (id : String) : Except RegistryError Unit × InMemoryRegistry :=
  match s.find id with
  | some (group,members,_) => (.ok (),⟨s.byGroup.replace group (members.erase id)⟩)
  | none => (.error (.notFound id),s)

def list (group : String) : List InstanceInfo :=
  match s.byGroup.lookup group with
  | some members => members.entries.map Sigma.snd
  | none => []

end InMemoryRegistry

inductive Call where
  | register (info : InstanceInfo)
  | setRole (id : String) (role : InstanceRole)
  | deregister (id : String)
  /-- The order in which the groups are visited is another one from now on. -/
  | reorder (byGroup : HashMap Members)

def step (s : InMemoryRegistry) : Call → Option InMemoryRegistry
  | .register info => some (s.register info)
  | .setRole id role => some (s.setRole id role).2
  | .deregister id => some (s.deregister id).2
  | .reorder byGroup => if byGroup.entries.Perm s.byGroup.entries then some ⟨byGroup⟩ else none

section Maps

variable {β : Type} {m : HashMap β} {a b : String} {x : β}

theorem lookup_replace_ne (other : b ≠ a) : (m.replace a x).lookup b = m.lookup b := by
  rcases m with ⟨entries,nodup⟩
  change (List.kreplace a x entries).dlookup b = entries.dlookup b
  clear nodup
  induction entries with
  | nil => rfl
  | cons e entries ih =>
    rcases e with ⟨c,y⟩
    by_cases here : a = c
    · subst here
      rw [List.kreplace,List.lookmap_cons_some _ _ (b := ⟨a,x⟩) (by simp)]
      rw [List.dlookup_cons_ne _ _ other,List.dlookup_cons_ne _ _ other]
    · rw [List.kreplace,List.lookmap_cons_none _ _ (by simp [here])]
      by_cases same : b = c
      · subst same
        simp
      · rw [List.dlookup_cons_ne _ _ same,List.dlookup_cons_ne _ _ same]
        exact ih

theorem lookup_replace (member : a ∈ m) : (m.replace a x).lookup a = some x := by
  rcases m with ⟨entries,nodup⟩
  change (List.kreplace a x entries).dlookup a = some x
  replace member : a ∈ entries.keys := member
  clear nodup
  induction entries with
  | nil => simp at member
  | cons e entries ih =>
    rcases e with ⟨c,y⟩
    by_cases here : a = c
    · subst here
      rw [List.kreplace,List.lookmap_cons_some _ _ (b := ⟨a,x⟩) (by simp)]
      exact List.dlookup_cons_eq ..
    · rw [List.kreplace,List.lookmap_cons_none _ _ (by simp [here]),List.dlookup_cons_ne _ _ here]
      exact ih (by simpa [here] using member)

end Maps

namespace InMemoryRegistry

variable {s : InMemoryRegistry} {group id : String} {members : Members} {info : InstanceInfo}

def entry (s : InMemoryRegistry) (group id : String) : Option InstanceInfo := (s.byGroup.lookup group).bind (·.lookup id)

theorem entry_of_mem (member : ⟨group,members⟩ ∈ s.byGroup.entries) : s.entry group id = members.lookup id := by
  have there : s.byGroup.lookup group = some members := AList.mem_lookup_iff.mpr member
  rw [entry,there,Option.bind_some]

theorem entry_eq_some : s.entry group id = some info ↔
    ∃ members, ⟨group,members⟩ ∈ s.byGroup.entries ∧ members.lookup id = some info := by
  rw [entry,Option.bind_eq_some_iff]
  exact exists_congr fun members => and_congr_left fun _ => AList.mem_lookup_iff

theorem find_some (found : s.find id = some (group,members,info)) :
    s.byGroup.lookup group = some members ∧ members.lookup id = some info := by
  obtain ⟨⟨group',members'⟩,member,eq⟩ := List.exists_of_findSome?_eq_some found
  obtain ⟨info',there,same⟩ := Option.map_eq_some_iff.mp eq
  simp only [Prod.mk.injEq] at same
  obtain ⟨rfl,rfl,rfl⟩ := same
  exact ⟨AList.mem_lookup_iff.mpr member,there⟩

theorem entry_register (s : InMemoryRegistry) (info : InstanceInfo) (group id : String) :
    (s.register info).entry group id = if group = info.group ∧ id = info.instanceId then some info else s.entry group id := by
  by_cases here : group = info.group
  · subst here
    rw [entry,register,AList.lookup_insert,Option.bind_some]
    by_cases same : id = info.instanceId
    · subst same
      simp
    · rw [AList.lookup_insert_ne same,if_neg (fun both => same both.2),entry]
      cases s.byGroup.lookup info.group <;> rfl
  · rw [entry,register,AList.lookup_insert_ne here,if_neg (fun both => here both.1),entry]

/-- Another entry is put in the place that was found, or it is emptied. -/
theorem entry_replace (found : s.find id = some (group,members,info)) (new : Members) (other : ∀ id', id' ≠ id →
    new.lookup id' = members.lookup id') (group' id' : String) : entry ⟨s.byGroup.replace group new⟩ group' id' =
      if group' = group ∧ id' = id then new.lookup id else s.entry group' id' := by
  obtain ⟨there,_⟩ := find_some found
  by_cases here : group' = group
  · subst here
    have member : group' ∈ s.byGroup := AList.lookup_isSome.mp (by rw [there]; rfl)
    rw [entry,lookup_replace member,Option.bind_some]
    by_cases same : id' = id
    · subst same
      simp
    · rw [other id' same,if_neg (fun both => same both.2),entry,there,Option.bind_some]
  · rw [entry,lookup_replace_ne here,if_neg (fun both => here both.1),entry]

theorem setRole_some (found : s.find id = some (group,members,info)) (role : InstanceRole) :
    (s.setRole id role).1 = .ok () ∧ ∀ group' id', (s.setRole id role).2.entry group' id' =
      if group' = group ∧ id' = id then some { info with role := role } else s.entry group' id' := by
  rw [setRole,found]
  refine ⟨rfl,fun group' id' => ?_⟩
  have member : id ∈ members := AList.lookup_isSome.mp (by rw [(find_some found).2]; rfl)
  rw [entry_replace found _ (fun id' other => lookup_replace_ne other),lookup_replace member]

theorem deregister_some (found : s.find id = some (group,members,info)) :
    (s.deregister id).1 = .ok () ∧ ∀ group' id', (s.deregister id).2.entry group' id' =
      if group' = group ∧ id' = id then none else s.entry group' id' := by
  rw [deregister,found]
  refine ⟨rfl,fun group' id' => ?_⟩
  rw [entry_replace found _ (fun id' other => AList.lookup_erase_ne other),AList.lookup_erase]

theorem setRole_none (missing : s.find id = none) (role : InstanceRole) : s.setRole id role = (.error (.notFound id),s) := by
  rw [setRole,missing]

theorem deregister_none (missing : s.find id = none) : s.deregister id = (.error (.notFound id),s) := by
  rw [deregister,missing]

theorem mem_list : info ∈ s.list group ↔ ∃ id, s.entry group id = some info := by
  simp only [entry_eq_some,list]
  cases there : s.byGroup.lookup group with
  | none =>
    have missing : ∀ members, ⟨group,members⟩ ∉ s.byGroup.entries := by
      intro members member
      rw [AList.mem_lookup_iff.mpr member] at there
      cases there
    simp [missing]
  | some members =>
    have only (members' : Members) : ⟨group,members'⟩ ∈ s.byGroup.entries ↔ members' = members := by
      rw [← AList.mem_lookup_iff,there]
      exact ⟨fun same => (Option.some.inj same).symm,fun same => same ▸ rfl⟩
    simp only [only,exists_eq_left,List.mem_map]
    constructor
    · rintro ⟨⟨id,info'⟩,member,rfl⟩
      exact ⟨id,AList.mem_lookup_iff.mpr member⟩
    · rintro ⟨id,here⟩
      exact ⟨⟨id,info⟩,AList.mem_lookup_iff.mp here,rfl⟩

end InMemoryRegistry

open InMemoryRegistry

/-- No group but the first that is visited has the id, or has it with another role. -/
def Addressed (s : InMemoryRegistry) : Call → Prop
  | .deregister id => ∀ found ∈ s.find id, ∀ m ∈ s.byGroup.entries, id ∈ m.2 → m.1 = found.1
  | .setRole id role => ∀ found ∈ s.find id, ∀ m ∈ s.byGroup.entries, ∀ info ∈ m.2.lookup id, m.1 = found.1 ∨ info.role = role
  | _ => True

instance (s : InMemoryRegistry) (c : Call) : Decidable (Addressed s c) :=
  match c with
  | .deregister id => inferInstanceAs (Decidable (∀ found ∈ s.find id, ∀ m ∈ s.byGroup.entries, id ∈ m.2 → m.1 = found.1))
  | .setRole id role => inferInstanceAs (Decidable (∀ found ∈ s.find id, ∀ m ∈ s.byGroup.entries,
      ∀ info ∈ m.2.lookup id, m.1 = found.1 ∨ info.role = role))
  | .register _ | .reorder _ => .isTrue trivial

def Call.Registers (id : String) : Call → Prop
  | .register info => info.instanceId = id
  | _ => False

def Absent (s : InMemoryRegistry) (id : String) : Prop := ∀ group, ∀ info ∈ s.list group, info.instanceId ≠ id

/-- Every listed entry of the id has the role. -/
def AllIn (s : InMemoryRegistry) (id : String) (role : InstanceRole) : Prop :=
  ∀ group, ∀ info ∈ s.list group, info.instanceId = id → info.role = role

/-- The steps of a run do what their calls say: who was deregistered is gone until it registers
again, and who was given a role has it. -/
def Honoured (past : List (Taken InMemoryRegistry Call)) : Prop :=
  ∀ before t later, past = before ++ t :: later →
    (∀ id, t.event = .deregister id → (t.pre.deregister id).1 = .ok () → ∀ mid u, Run step t.post mid u → mid <+: later →
      (∀ x ∈ mid, ¬ x.event.Registers id) → Absent u id) ∧
    ∀ id role, t.event = .setRole id role → (t.pre.setRole id role).1 = .ok () → AllIn t.post id role

/-- Entries stand under their own ids. -/
def Keyed (s : InMemoryRegistry) : Prop := ∀ group id info, s.entry group id = some info → info.instanceId = id

section Steps

variable {s s' : InMemoryRegistry} {id : String} {c : Call}

theorem entry_reorder {byGroup : HashMap Members} (same : byGroup.entries.Perm s.byGroup.entries) (group id : String) :
    entry ⟨byGroup⟩ group id = s.entry group id := by
  rw [entry,entry,AList.perm_lookup same]

theorem step_keyed (keyed : Keyed s) (taken : step s c = some s') : Keyed s' := by
  cases c with
  | register info =>
    obtain rfl := Option.some.inj taken
    intro group id info' here
    rw [entry_register] at here
    split at here
    next same =>
      obtain rfl := Option.some.inj here
      exact same.2.symm
    next => exact keyed group id info' here
  | setRole id role =>
    obtain rfl := Option.some.inj taken
    cases found : s.find id with
    | none =>
      rw [setRole_none found]
      exact keyed
    | some hit =>
      obtain ⟨group₀,members,info₀⟩ := hit
      have stored : s.entry group₀ id = some info₀ := by
        rw [entry,(find_some found).1,Option.bind_some,(find_some found).2]
      intro group id' info' here
      rw [(setRole_some found role).2] at here
      split at here
      next same =>
        obtain rfl := Option.some.inj here
        obtain ⟨rfl,rfl⟩ := same
        have own := keyed _ _ _ stored
        exact own
      next => exact keyed group id' info' here
  | deregister id =>
    obtain rfl := Option.some.inj taken
    cases found : s.find id with
    | none =>
      rw [deregister_none found]
      exact keyed
    | some hit =>
      obtain ⟨group₀,members,info₀⟩ := hit
      intro group id' info' here
      rw [(deregister_some found).2] at here
      split at here
      next => cases here
      next => exact keyed group id' info' here
  | reorder byGroup =>
    obtain ⟨same,rfl⟩ := Option.ite_some_none_eq_some.mp taken
    intro group id info here
    rw [entry_reorder same] at here
    exact keyed group id info here

theorem run_keyed (run : Run step .new past s) : Keyed s := by
  refine run.always ?_ fun _ _ _ => step_keyed
  intro group id info here
  simp [entry,new] at here

/-- What is nowhere stays away until it is registered. -/
theorem step_absent (absent : ∀ group, s.entry group id = none) (other : ¬ c.Registers id) (taken : step s c = some s') :
    ∀ group, s'.entry group id = none := by
  intro group
  cases c with
  | register info =>
    obtain rfl := Option.some.inj taken
    rw [entry_register,if_neg (fun same => other same.2.symm),absent]
  | setRole id' role =>
    obtain rfl := Option.some.inj taken
    cases found : s.find id' with
    | none =>
      rw [setRole_none found]
      exact absent group
    | some hit =>
      obtain ⟨group₀,members,info₀⟩ := hit
      rw [(setRole_some found role).2]
      split
      next same =>
        obtain ⟨rfl,rfl⟩ := same
        have gone := absent group
        rw [entry,(find_some found).1,Option.bind_some,(find_some found).2] at gone
        cases gone
      next => exact absent group
  | deregister id' =>
    obtain rfl := Option.some.inj taken
    cases found : s.find id' with
    | none =>
      rw [deregister_none found]
      exact absent group
    | some hit =>
      obtain ⟨group₀,members,info₀⟩ := hit
      rw [(deregister_some found).2]
      split
      next => rfl
      next => exact absent group
  | reorder byGroup =>
    obtain ⟨same,rfl⟩ := Option.ite_some_none_eq_some.mp taken
    rw [entry_reorder same]
    exact absent group

theorem absent_iff (keyed : Keyed s) : Absent s id ↔ ∀ group, s.entry group id = none := by
  constructor
  · intro absent group
    rw [Option.eq_none_iff_forall_ne_some]
    intro info here
    exact absent group info (mem_list.mpr ⟨id,here⟩) (keyed _ _ _ here)
  · intro nowhere group info member same
    obtain ⟨id',here⟩ := mem_list.mp member
    obtain rfl : id' = id := (keyed _ _ _ here).symm.trans same
    rw [nowhere] at here
    cases here

theorem run_absent (run : Run step s mid s') (keyed : Keyed s) (absent : Absent s id)
    (free : ∀ x ∈ mid, ¬ x.event.Registers id) : Absent s' id := by
  have nowhere := run.invariant (P := fun s => ∀ group, s.entry group id = none) (C := fun _ c => ¬ c.Registers id)
    ((absent_iff keyed).mp absent) (fun _ _ _ => step_absent) free
  exact (absent_iff (run.always keyed fun _ _ _ => step_keyed)).mpr nowhere

/-- After an `Ok` the id is nowhere, if and only if it was in no second group. -/
theorem deregister_absent_iff (keyed : Keyed s) (ok : (s.deregister id).1 = .ok ()) :
    Absent (s.deregister id).2 id ↔ Addressed s (.deregister id) := by
  cases found : s.find id with
  | none =>
    rw [deregister_none found] at ok
    cases ok
  | some hit =>
    obtain ⟨group₀,members,info₀⟩ := hit
    have entries := (deregister_some found).2
    have keyed' : Keyed (s.deregister id).2 := step_keyed (c := .deregister id) keyed rfl
    constructor
    · intro absent hit there m member inside
      obtain rfl := Option.some.inj (found.symm.trans there)
      by_contra second
      obtain ⟨info,here⟩ := Option.isSome_iff_exists.mp (AList.lookup_isSome.mpr inside)
      have still : (s.deregister id).2.entry m.1 id = some info := by
        rw [entries,if_neg (fun same => second same.1),entry_of_mem member,here]
      exact absent m.1 info (mem_list.mpr ⟨id,still⟩) (keyed' _ _ _ still)
    · intro addressed
      refine (absent_iff keyed').mpr fun group => ?_
      rw [entries]
      split
      next => rfl
      next other =>
        rw [Option.eq_none_iff_forall_ne_some]
        intro info here
        obtain ⟨members',member,there⟩ := entry_eq_some.mp here
        have inside : id ∈ members' := AList.lookup_isSome.mp (by rw [there]; rfl)
        exact other ⟨addressed _ found _ member inside,rfl⟩

/-- After an `Ok` every entry of the id has the role, if and only if those in other groups had it. -/
theorem setRole_allIn_iff (keyed : Keyed s) (role : InstanceRole) (ok : (s.setRole id role).1 = .ok ()) :
    AllIn (s.setRole id role).2 id role ↔ Addressed s (.setRole id role) := by
  cases found : s.find id with
  | none =>
    rw [setRole_none found] at ok
    cases ok
  | some hit =>
    obtain ⟨group₀,members,info₀⟩ := hit
    have entries := (setRole_some found role).2
    have keyed' : Keyed (s.setRole id role).2 := step_keyed (c := .setRole id role) keyed rfl
    constructor
    · intro all hit there m member info here
      obtain rfl := Option.some.inj (found.symm.trans there)
      refine or_iff_not_imp_left.mpr fun second => ?_
      have still : (s.setRole id role).2.entry m.1 id = some info := by
        rw [entries,if_neg (fun same => second same.1),entry_of_mem member,here]
      exact all m.1 info (mem_list.mpr ⟨id,still⟩) (keyed' _ _ _ still)
    · intro addressed group info member same
      obtain ⟨id',here⟩ := mem_list.mp member
      obtain rfl : id' = id := (keyed' _ _ _ here).symm.trans same
      rw [entries] at here
      split at here
      next =>
        obtain rfl := Option.some.inj here
        rfl
      next other =>
        obtain ⟨members',inside,there⟩ := entry_eq_some.mp here
        rcases addressed _ found _ inside info there with first | role_
        · exact absurd ⟨first,rfl⟩ other
        · exact role_

def Does (s : InMemoryRegistry) (c : Call) (s' : InMemoryRegistry) : Prop :=
  match c with
  | .deregister id => (s.deregister id).1 = .ok () → Absent s' id
  | .setRole id role => (s.setRole id role).1 = .ok () → AllIn s' id role
  | _ => True

theorem step_does_iff (keyed : Keyed s) (taken : step s c = some s') : Does s c s' ↔ Addressed s c := by
  cases c with
  | register info => exact iff_of_true trivial trivial
  | reorder byGroup => exact iff_of_true trivial trivial
  | deregister id =>
    obtain rfl := Option.some.inj taken
    cases found : s.find id with
    | none => exact iff_of_true (by simp [Does,deregister_none found]) (by simp [Addressed,found])
    | some hit =>
      have ok := (deregister_some found).1
      exact (forall_prop_of_true ok).trans (deregister_absent_iff keyed ok)
  | setRole id role =>
    obtain rfl := Option.some.inj taken
    cases found : s.find id with
    | none => exact iff_of_true (by simp [Does,setRole_none found]) (by simp [Addressed,found])
    | some hit =>
      have ok := (setRole_some found role).1
      exact (forall_prop_of_true ok).trans (setRole_allIn_iff keyed role ok)

end Steps

/-- A run of calls does what its calls say, if and only if each `deregister` and `set_role` is
made of an id that no group but the first visited has, or has with another role. -/
theorem honoured_iff (run : Run step .new past s) : Honoured past ↔ ∀ t ∈ past, Addressed t.pre t.event := by
  constructor
  · intro honoured t member
    obtain ⟨before,later,rfl⟩ := List.append_of_mem member
    obtain ⟨front,taken,_⟩ := run.split
    obtain ⟨gone,given⟩ := honoured before t later rfl
    rw [← step_does_iff (run_keyed front) taken]
    cases event : t.event with
    | register info => trivial
    | reorder byGroup => trivial
    | deregister id => exact fun ok => gone id event ok [] t.post .nil List.nil_prefix (by simp)
    | setRole id role => exact given id role event
  · rintro addressed before t later rfl
    obtain ⟨front,taken,_⟩ := run.split
    have keyed := run_keyed front
    have does := (step_does_iff keyed taken).mpr (addressed t (by simp))
    constructor
    · intro id event ok mid u after _ free
      rw [event] at does
      exact run_absent after (step_keyed keyed taken) (does ok) free
    · intro id role event ok
      rw [event] at does
      exact does ok

def replica (group : String) : InstanceInfo := ⟨"a",group,.active,1,"1970-01-01T00:00:00Z",none,none⟩

def moves : List Call := [.register (replica "g"),.setRole "a" .draining,.deregister "a",.register (replica "h")]

theorem moves_honoured : ∃ past s, Run step .new past s ∧ past.length = 4 ∧ Honoured past := by
  obtain ⟨past,s,run,all,addressed⟩ := exists_run step .new moves
    (fun past _ => past.length = 4 ∧ ∀ t ∈ past, Addressed t.pre t.event) (by decide +kernel)
  exact ⟨past,s,run,all,(honoured_iff run).mpr addressed⟩

/-- One that is registered under another group, and deregistered: it stays listed. -/
theorem stays_listed : ¬ ∀ past s, Run step .new past s → Honoured past := by
  intro honoured
  obtain ⟨before,t,after,s,run,event,ok,listed⟩ := exists_run_cut step .new
    [.register (replica "g"),.register (replica "h")] (.deregister "a") []
    (fun _ t _ _ => (t.pre.deregister "a").1 = .ok () ∧
      ∃ info ∈ t.post.list "g" ++ t.post.list "h", info.instanceId = "a") (by decide +kernel)
  obtain ⟨gone,_⟩ := honoured _ s run before t after rfl
  have absent := gone "a" event ok [] t.post .nil List.nil_prefix (by simp)
  obtain ⟨info,member,same⟩ := listed
  rcases List.mem_append.mp member with left | right
  · exact absent "g" info left same
  · exact absent "h" info right same

end Malkuth.InstanceRegistry
