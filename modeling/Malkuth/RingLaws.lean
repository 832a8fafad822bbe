import Malkuth.Proxy

/-! Which backend the ring of `proxy.rs` picks. The points, each with its backend, form one
sorted list; a lookup takes the first of them behind the key that is not excluded. With
distinct hashes that list depends only on which backends there are. -/
namespace Malkuth.Proxy

namespace Ring

def below {β : Type} (key : String) (p : UInt64 × β) : Bool := decide (p.1 < hash64 key)

def located (ring : Ring) : List (UInt64 × Backend) :=
  ring.points.filterMap fun p => ring.backends[p.2]?.map fun b => (p.1,b)

def vnodePoints (backends : List Backend) : List (UInt64 × Backend) :=
  backends.flatMap fun b => (List.range vnodes).map fun vn => (vnodeHash b vn,b)

theorem below_sorted (key : String) (l : List (UInt64 × β)) (sorted : l.Pairwise fun p q => p.1 ≤ q.1) :
    l.Pairwise fun p q => below key q = true → below key p = true := by
  apply sorted.imp
  intro p q le behind
  simp only [below,decide_eq_true_eq] at behind ⊢
  exact UInt64.lt_of_le_of_lt le behind

theorem located_sorted (ring : Ring) (sorted : ring.points.Pairwise fun p q => p.1 ≤ q.1) :
    ring.located.Pairwise fun p q => p.1 ≤ q.1 := by
  apply List.pairwise_filterMap.mpr
  apply sorted.imp
  rintro p q le p' here q' there
  obtain ⟨_,_,rfl⟩ := Option.map_eq_some_iff.mp here
  obtain ⟨_,_,rfl⟩ := Option.map_eq_some_iff.mp there
  exact le

theorem turn_located (ring : Ring) (key : String) (sorted : ring.points.Pairwise fun p q => p.1 ≤ q.1) :
    Circle.turn (below key) ring.located =
      (Circle.turn (below key) ring.points).filterMap fun p => ring.backends[p.2]?.map fun b => (p.1,b) := by
  apply Circle.turn_filterMap (below_sorted key _ sorted)
  rintro p p' here
  obtain ⟨_,_,rfl⟩ := Option.map_eq_some_iff.mp here
  rfl

/-- The scan of `route_excluding` over the located points. -/
theorem routeExcluding_eq (ring : Ring) (key : String) (exclude : List SocketAddr)
    (sorted : ring.points.Pairwise fun p q => p.1 ≤ q.1) :
    ring.routeExcluding key exclude =
      ((Circle.turn (below key) ring.located).filter fun p => !exclude.contains p.2.addr).head?.map Prod.snd := by
  unfold routeExcluding
  split
  next empty =>
    have none : ring.points = [] := by simpa using empty
    simp [located,none,Circle.turn]
  next =>
    have scan := Circle.findSome?_wrapping ring.points
      (fun p => ring.backends[p.2]?.bind fun b => if exclude.contains b.addr then none else some b)
      (ring.start key)
    have rotated : ring.points.rotate (ring.start key) = Circle.turn (below key) ring.points :=
      Circle.rotate_partitionPoint _ _
    rw [rotated] at scan
    refine Eq.trans scan ?_
    rw [← List.head?_filterMap,turn_located ring key sorted,List.filter_filterMap,← List.head?_map,
      List.map_filterMap]
    apply congrArg List.head?
    apply List.filterMap_congr
    intro p _
    cases here : ring.backends[p.2]? with
    | none => simp
    | some b => by_cases excluded : b.addr ∈ exclude <;> simp [Option.filter,excluded]

theorem fromBackends_sorted (by_ : UnstableSort) (backends : List Backend) :
    (fromBackends by_ backends).points.Pairwise fun p q => p.1 ≤ q.1 :=
  by_.sorted _

/-- The located points are those made for the backends, whatever the sort does with ties. -/
theorem located_perm (by_ : UnstableSort) (backends : List Backend) :
    (fromBackends by_ backends).located.Perm (vnodePoints backends) := by
  have looked : (unsorted backends).filterMap (fun p => backends[p.2]?.map fun b => (p.1,b)) =
      backends.zipIdx.flatMap fun p => (List.range vnodes).map fun vn => (vnodeHash p.1 vn,p.1) := by
    rw [unsorted,List.filterMap_flatMap]
    apply List.flatMap_congr
    rintro ⟨b,i⟩ member
    have here : backends[i]? = some b := by simpa using List.mk_mem_zipIdx_iff_getElem?.mp member
    simp [List.filterMap_map,here]
  have indexed : vnodePoints backends =
      backends.zipIdx.flatMap fun p => (List.range vnodes).map fun vn => (vnodeHash p.1 vn,p.1) := by
    conv_lhs => rw [vnodePoints,← List.zipIdx_map_fst 0 backends,List.flatMap_map]
  rw [indexed,← looked]
  exact (by_.perm _).filterMap _

theorem mem_located (by_ : UnstableSort) (backends : List Backend) (b : Backend) :
    (∃ h, (h,b) ∈ (fromBackends by_ backends).located) ↔ b ∈ backends := by
  constructor
  · rintro ⟨h,member⟩
    have made := (located_perm by_ backends).mem_iff.mp member
    simp only [vnodePoints,List.mem_flatMap,List.mem_map] at made
    obtain ⟨b',given,vn,_,eq⟩ := made
    obtain ⟨_,rfl⟩ := Prod.mk.inj eq
    exact given
  · intro given
    refine ⟨vnodeHash b 0,(located_perm by_ backends).mem_iff.mpr ?_⟩
    simp only [vnodePoints,List.mem_flatMap,List.mem_map,List.mem_range]
    exact ⟨b,given,0,by decide,rfl⟩

theorem mem_turn_located (by_ : UnstableSort) (backends : List Backend) (key : String) :
    p ∈ Circle.turn (below key) (fromBackends by_ backends).located ↔
      p ∈ (fromBackends by_ backends).located :=
  (Circle.turn_perm _ _).mem_iff

/-- Nothing is found exactly when every backend is excluded. -/
theorem routeExcluding_eq_none (by_ : UnstableSort) (backends : List Backend) (key : String)
    (exclude : List SocketAddr) :
    (fromBackends by_ backends).routeExcluding key exclude = none ↔
      ∀ b ∈ backends, b.addr ∈ exclude := by
  rw [routeExcluding_eq _ key exclude (fromBackends_sorted by_ backends)]
  simp only [Option.map_eq_none_iff,List.head?_eq_none_iff,List.filter_eq_nil_iff,mem_turn_located]
  constructor
  · intro all b given
    obtain ⟨h,member⟩ := (mem_located by_ backends b).mpr given
    simpa using all (h,b) member
  · rintro all ⟨h,b⟩ member
    simpa using all b ((mem_located by_ backends b).mp ⟨h,member⟩)

/-- What is found is a backend of the ring that is not excluded. -/
theorem routeExcluding_eq_some (by_ : UnstableSort) (backends : List Backend) (key : String)
    (exclude : List SocketAddr) (found : (fromBackends by_ backends).routeExcluding key exclude = some b) :
    b ∈ backends ∧ b.addr ∉ exclude := by
  rw [routeExcluding_eq _ key exclude (fromBackends_sorted by_ backends)] at found
  obtain ⟨⟨h,b'⟩,first,rfl⟩ := Option.map_eq_some_iff.mp found
  have member := List.mem_filter.mp (List.mem_of_mem_head? first)
  refine ⟨(mem_located by_ backends _).mp ⟨h,(mem_turn_located by_ backends key).mp member.1⟩,?_⟩
  simpa using member.2

/-- `route` is the scan with nothing excluded. -/
theorem route_eq_routeExcluding (by_ : UnstableSort) (backends : List Backend) (key : String) :
    (fromBackends by_ backends).route key = (fromBackends by_ backends).routeExcluding key [] := by
  generalize made : fromBackends by_ backends = ring
  unfold route routeExcluding
  split
  · rfl
  next present =>
    have positive : 0 < ring.points.length := List.length_pos_iff.mpr (by simpa using present)
    have inside := Nat.mod_lt (ring.start key) positive
    obtain ⟨p,look⟩ : ∃ p, ring.points[ring.start key % ring.points.length]? = some p :=
      ⟨_,List.getElem?_eq_getElem inside⟩
    obtain ⟨b,here⟩ : ∃ b, ring.backends[p.2]? = some b := by
      subst made
      have before := (by_.perm _).mem_iff.mp (List.mem_of_getElem? look)
      simp only [unsorted,List.mem_flatMap,List.mem_map] at before
      obtain ⟨⟨b,i⟩,indexed,vn,_,rfl⟩ := before
      exact ⟨b,by simpa [fromBackends] using List.mk_mem_zipIdx_iff_getElem?.mp indexed⟩
    have head : List.range ring.points.length = 0 :: (List.range (ring.points.length - 1)).map Nat.succ := by
      rw [← List.range_succ_eq_map,Nat.sub_add_cancel positive]
    rw [head]
    simp [look,here]

/-- Sorted by distinct hashes, a list is determined by its elements. -/
theorem eq_of_sorted (l m : List (UInt64 × Backend)) (first : l.Pairwise fun p q => p.1 ≤ q.1)
    (second : m.Pairwise fun p q => p.1 ≤ q.1) (perm : l.Perm m) (distinct : (m.map Prod.fst).Nodup) :
    l = m := by
  refine List.Perm.eq_of_pairwise ?_ first second perm
  intro p q left right le ge
  exact List.inj_on_of_nodup_map distinct (perm.mem_iff.mp left) right (UInt64.le_antisymm le ge)

end Ring

/-- What the laws of the ring assume of a list of backends. -/
structure Distinct (backends : List Backend) : Prop where
  ids : (backends.map Backend.id).Nodup
  addrs : (backends.map Backend.addr).Nodup
  hashes : ((Ring.vnodePoints backends).map Prod.fst).Nodup

namespace Ring

theorem vnodePoints_filter (backends : List Backend) (keep : Backend → Bool) :
    vnodePoints (backends.filter keep) = (vnodePoints backends).filter fun p => keep p.2 := by
  induction backends with
  | nil => rfl
  | cons b rest ih =>
    have here : ((List.range vnodes).map fun vn => (vnodeHash b vn,b)).filter (fun p => keep p.2) =
        if keep b then (List.range vnodes).map fun vn => (vnodeHash b vn,b) else [] := by
      cases kept : keep b <;> simp [List.filter_map,Function.comp_def,kept]
    simp only [vnodePoints] at ih ⊢
    rw [List.flatMap_cons,List.filter_append,here,← ih,List.filter_cons]
    cases keep b <;> simp

/-- The ring of some of the backends, in any order, is the ring of all of them with the
other points left out. -/
theorem located_filter (by_ : UnstableSort) (backends some : List Backend) (distinct : Distinct backends)
    (keep : Backend → Bool) (perm : some.Perm (backends.filter keep)) :
    (fromBackends by_ some).located = (fromBackends by_ backends).located.filter fun p => keep p.2 := by
  have all := located_perm by_ backends
  apply eq_of_sorted
  · exact located_sorted _ (fromBackends_sorted by_ some)
  · exact (located_sorted _ (fromBackends_sorted by_ backends)).sublist List.filter_sublist
  · calc (fromBackends by_ some).located
      _ |>.Perm (vnodePoints some) := located_perm by_ some
      _ |>.Perm (vnodePoints (backends.filter keep)) := perm.flatMap_right _
      _ = (vnodePoints backends).filter fun p => keep p.2 := vnodePoints_filter backends keep
      _ |>.Perm ((fromBackends by_ backends).located.filter fun p => keep p.2) := (all.filter _).symm
  · exact ((List.filter_sublist.map _).nodup ((all.map _).nodup_iff.mpr distinct.hashes))

theorem turn_located_filter (by_ : UnstableSort) (backends some : List Backend) (distinct : Distinct backends)
    (keep : Backend → Bool) (perm : some.Perm (backends.filter keep)) (key : String) :
    Circle.turn (below key) (fromBackends by_ some).located =
      (Circle.turn (below key) (fromBackends by_ backends).located).filter fun p => keep p.2 := by
  rw [located_filter by_ backends some distinct keep perm]
  exact Circle.turn_filter (below_sorted key _ (located_sorted _ (fromBackends_sorted by_ backends))) _

theorem route_eq (by_ : UnstableSort) (backends : List Backend) (key : String) :
    (fromBackends by_ backends).route key =
      (Circle.turn (below key) (fromBackends by_ backends).located).head?.map Prod.snd := by
  rw [route_eq_routeExcluding,routeExcluding_eq _ key [] (fromBackends_sorted by_ backends)]
  simp

/-- Only the keys of a backend move when it is taken away, and only to it when it comes. -/
theorem route_without (by_ : UnstableSort) (backends rest : List Backend) (distinct : Distinct backends)
    (b : Backend) (perm : rest.Perm (backends.filter fun c => c != b)) (key : String) :
    (fromBackends by_ backends).route key = some b ∨
      (fromBackends by_ rest).route key = (fromBackends by_ backends).route key := by
  rw [route_eq,route_eq,turn_located_filter by_ backends rest distinct _ perm]
  rcases Circle.head?_filter (Circle.turn (below key) (fromBackends by_ backends).located)
    (fun p => p.2 != b) with ⟨p,first,dropped⟩ | same
  · left
    simpa [first] using dropped
  · right
    rw [same]

/-- Rings of the same backends in another order give the same answers. -/
theorem routeExcluding_perm (by_ : UnstableSort) (backends other : List Backend) (distinct : Distinct backends)
    (perm : other.Perm backends) (key : String) (exclude : List SocketAddr) :
    (fromBackends by_ other).routeExcluding key exclude =
      (fromBackends by_ backends).routeExcluding key exclude := by
  have same := located_filter by_ backends other distinct (fun _ => true) (by simpa using perm)
  rw [routeExcluding_eq _ key exclude (fromBackends_sorted by_ other),
    routeExcluding_eq _ key exclude (fromBackends_sorted by_ backends),same]
  simp

/-- Excluding addresses is routing on the ring without them. -/
theorem routeExcluding_eq_route (by_ : UnstableSort) (backends : List Backend) (distinct : Distinct backends)
    (key : String) (exclude : List SocketAddr) :
    (fromBackends by_ backends).routeExcluding key exclude =
      (fromBackends by_ (backends.filter fun b => b.addr ∉ exclude)).route key := by
  rw [routeExcluding_eq _ key exclude (fromBackends_sorted by_ backends),route_eq,
    turn_located_filter by_ backends _ distinct _ (.refl _)]
  simp [List.contains_eq_mem]

end Ring

theorem Distinct.nodup (distinct : Distinct backends) : backends.Nodup := distinct.ids.of_map

/-- The laws of the consistent-hash ring. -/
theorem ring_laws (by_ : UnstableSort) (backends : List Backend) (distinct : Distinct backends)
    (key : String) (exclude : List SocketAddr) :
    ((Ring.fromBackends by_ backends).routeExcluding key exclude =
        (Ring.fromBackends by_ (backends.filter fun b => b.addr ∉ exclude)).route key ∧
      ((Ring.fromBackends by_ backends).routeExcluding key exclude = none ↔
        ∀ b ∈ backends, b.addr ∈ exclude)) ∧
    (∀ other : List Backend, other.Perm backends →
      (Ring.fromBackends by_ other).routeExcluding key exclude =
        (Ring.fromBackends by_ backends).routeExcluding key exclude ∧
      (Ring.fromBackends by_ other).route key = (Ring.fromBackends by_ backends).route key) ∧
    (∀ b (more : List Backend), more.Perm (b :: backends) → Distinct more →
      (Ring.fromBackends by_ more).route key = some b ∨
        (Ring.fromBackends by_ more).route key = (Ring.fromBackends by_ backends).route key) ∧
    (∀ b ∈ backends, (Ring.fromBackends by_ backends).route key ≠ some b →
      (Ring.fromBackends by_ (backends.erase b)).route key = (Ring.fromBackends by_ backends).route key) := by
  refine ⟨⟨Ring.routeExcluding_eq_route by_ backends distinct key exclude,
    Ring.routeExcluding_eq_none by_ backends key exclude⟩,?_,?_,?_⟩
  · intro other perm
    refine ⟨Ring.routeExcluding_perm by_ backends other distinct perm key exclude,?_⟩
    rw [Ring.route_eq_routeExcluding,Ring.route_eq_routeExcluding]
    exact Ring.routeExcluding_perm by_ backends other distinct perm key []
  · intro b more perm distinct'
    have fresh : b ∉ backends := (List.nodup_cons.mp (perm.nodup_iff.mp distinct'.nodup)).1
    have rest : (b :: backends).filter (fun c => c != b) = backends := by
      rw [List.filter_cons_of_neg (by simp)]
      apply List.filter_eq_self.mpr
      rintro c member
      simp only [bne_iff_ne]
      rintro rfl
      exact fresh member
    have others : backends.Perm (more.filter fun c => c != b) := by
      rw [← rest]
      exact (perm.filter _).symm
    exact (Ring.route_without by_ more backends distinct' b others key).imp id Eq.symm
  · intro b _ kept
    have others : (backends.erase b).Perm (backends.filter fun c => c != b) := by
      rw [distinct.nodup.erase_eq_filter]
    exact (Ring.route_without by_ backends _ distinct b others key).resolve_left kept

def stableSort : UnstableSort where
  sort points := points.mergeSort fun p q => decide (p.1 ≤ q.1)
  perm points := List.mergeSort_perm ..
  sorted points := by
    let le : UInt64 × Nat → UInt64 × Nat → Bool := fun p q => decide (p.1 ≤ q.1)
    have trans : ∀ a b c, le a b = true → le b c = true → le a c = true :=
      fun a b c => by simpa [le] using UInt64.le_trans
    have total : ∀ a b, (le a b || le b a) = true := fun a b => by simpa [le] using UInt64.le_total a.1 b.1
    simpa [le] using List.pairwise_mergeSort trans total points

def pods : List Backend :=
  [⟨.v4 0x7f000001 3001,"pod-0"⟩,⟨.v4 0x7f000001 3002,"pod-1"⟩]

def allDistinct : List Nat → Bool
  | [] => true
  | n :: rest => rest.all (fun m => !Nat.beq n m) && allDistinct rest

theorem nodup_of_allDistinct (l : List Nat) (checked : allDistinct l = true) : l.Nodup := by
  induction l with
  | nil => exact .nil
  | cons n rest ih =>
    simp only [allDistinct,Bool.and_eq_true,List.all_eq_true] at checked
    refine List.nodup_cons.mpr ⟨fun member => ?_,ih checked.2⟩
    simpa using checked.1 n member

theorem pods_distinct : Distinct pods where
  ids := by decide
  addrs := by decide
  hashes := by
    refine List.Nodup.of_map UInt64.toNat (nodup_of_allDistinct _ ?_)
    decide +kernel

/-- With the first pod's address excluded, every key goes where it goes without that pod. -/
theorem ring_laws_pods : (Ring.fromBackends stableSort pods).routeExcluding "10.0.0.1" [.v4 0x7f000001 3001] =
    (Ring.fromBackends stableSort [⟨.v4 0x7f000001 3002,"pod-1"⟩]).route "10.0.0.1" ∧
    (Ring.fromBackends stableSort pods).routeExcluding "10.0.0.1" [.v4 0x7f000001 3001] ≠ none := by
  have laws := (ring_laws stableSort pods pods_distinct "10.0.0.1" [.v4 0x7f000001 3001]).1
  refine ⟨laws.1,fun none => ?_⟩
  have excluded := laws.2.mp none ⟨.v4 0x7f000001 3002,"pod-1"⟩ (by decide)
  exact absurd excluded (by decide)

end Malkuth.Proxy
