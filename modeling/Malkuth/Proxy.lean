import Malkuth.Circle
import Malkuth.Transition
import Mathlib.Algebra.GroupWithZero.Nat
import Mathlib.Data.List.Sort

/-! The routing of `proxy.rs`: the consistent-hash ring, and the sticky cache in front of
it. One call is one step; the clock readings a call makes are its arguments. Durations and
instants are in nanoseconds. -/
namespace Malkuth.Proxy

open Transition

inductive IpAddr where
  | v4 (bits : BitVec 32)
  | v6 (bits : BitVec 128)
  deriving DecidableEq, Repr

inductive SocketAddr where
  | v4 (ip : BitVec 32) (port : UInt16)
  | v6 (ip : BitVec 128) (port : UInt16) (flowinfo scopeId : UInt32)
  deriving DecidableEq, Repr

def SocketAddr.new (ip : IpAddr) (port : UInt16) : SocketAddr :=
  match ip with
  | .v4 bits => .v4 bits port
  | .v6 bits => .v6 bits port 0 0

structure Backend where
  addr : SocketAddr
  id : String
  deriving DecidableEq, Repr

def vnodes : Nat := 160

/-- fnv-1a over the UTF-8 bytes; the multiplication wraps. -/
def hash64 (s : String) : UInt64 :=
  s.toByteArray.data.toList.foldl (fun h b => (h ^^^ b.toUInt64) * 0x100000001b3) 0xcbf29ce484222325

def vnodeHash (b : Backend) (vn : Nat) : UInt64 := hash64 (b.id ++ "/" ++ toString vn)

/-- `sort_unstable_by_key` by the hash: points of equal hash may end in any order. -/
structure UnstableSort where
  sort : List (UInt64 × Nat) → List (UInt64 × Nat)
  perm : ∀ points, (sort points).Perm points
  sorted : ∀ points, (sort points).Pairwise fun p q => p.1 ≤ q.1

/-- A point is a hash and the index of its backend. -/
structure Ring where
  points : List (UInt64 × Nat)
  backends : List Backend
  deriving DecidableEq, Repr

namespace Ring

def default : Ring := ⟨[],[]⟩

def unsorted (backends : List Backend) : List (UInt64 × Nat) :=
  backends.zipIdx.flatMap fun (b,i) => (List.range vnodes).map fun vn => (vnodeHash b vn,i)

def fromBackends (by_ : UnstableSort) (backends : List Backend) : Ring :=
  ⟨by_.sort (unsorted backends),backends⟩

def start (ring : Ring) (key : String) : Nat :=
  Circle.partitionPoint (fun p => decide (p.1 < hash64 key)) ring.points

def route (ring : Ring) (key : String) : Option Backend :=
  if ring.points.isEmpty then none
  else do
    let (_,i) ← ring.points[ring.start key % ring.points.length]?
    ring.backends[i]?

def routeExcluding (ring : Ring) (key : String) (exclude : List SocketAddr) : Option Backend :=
  if ring.points.isEmpty then none
  else
    (List.range ring.points.length).findSome? fun off => do
      let (_,i) ← ring.points[(ring.start key + off) % ring.points.length]?
      let b ← ring.backends[i]?
      if exclude.contains b.addr then none else some b

end Ring

/-- What can be read of a call of `pick`: its answer, or its panic at `Instant::now() +
self.ttl`, which poisons the lock of the cache. -/
inductive Picked where
  | returned (backend : Option Backend)
  | panicked
  deriving DecidableEq, Repr

structure ProxyState where
  ring : Ring
  sticky : String → Option (SocketAddr × Nat)
  poisoned : Bool
  ttl : Nat

/-- An `Instant` holds its seconds in an `i64`. -/
def instantLimit : Nat := 2^63 * 1000000000

namespace ProxyState

def new (ttl : Nat) : ProxyState := ⟨.default,fun _ => none,false,ttl⟩

def setBackends (by_ : UnstableSort) (s : ProxyState) (backends : List Backend) : ProxyState :=
  { s with ring := .fromBackends by_ backends }

/-- The cached address, if it is live, not in `dead` and still in the ring. -/
def hit (s : ProxyState) (client : String) (dead : List SocketAddr) (now : Nat) : Option SocketAddr :=
  if s.poisoned then none
  else do
    let (addr,exp) ← s.sticky client
    if exp > now ∧ addr ∉ dead then
      if s.ring.backends.any (fun b => b.addr == addr) then some addr else none
    else none

/-- The second half of `pick`: route, and remember the choice. -/
def routeFresh (s : ProxyState) (client : String) (dead : List SocketAddr) (now : Nat) :
    Picked × ProxyState :=
  match s.ring.routeExcluding client dead with
  | none => (.returned none,s)
  | some chosen =>
    if s.poisoned then (.returned (some chosen),s)
    else if now + s.ttl < instantLimit then
      (.returned (some chosen),
        { s with sticky := Function.update s.sticky client (some (chosen.addr,now + s.ttl)) })
    else (.panicked,{ s with poisoned := true })

def pick (s : ProxyState) (client : String) (dead : List SocketAddr) (first second : Nat) :
    Picked × ProxyState :=
  match s.hit client dead first with
  | some addr => (.returned (some ⟨addr,""⟩),s)
  | none => s.routeFresh client dead second

def invalidate (s : ProxyState) (client : String) : ProxyState :=
  if s.poisoned then s else { s with sticky := Function.update s.sticky client none }

end ProxyState

structure Clocked where
  state : ProxyState
  now : Nat

inductive Event where
  | setBackends (backends : List Backend)
  /-- `first` and `second` are the readings of the clock, in order. -/
  | pick (client : String) (dead : List SocketAddr) (first second : Nat)
  | invalidate (client : String)

def step (by_ : UnstableSort) (s : Clocked) : Event → Option Clocked
  | .setBackends backends => some { s with state := s.state.setBackends by_ backends }
  | .pick client dead first second =>
    if s.now ≤ first ∧ first ≤ second then some ⟨(s.state.pick client dead first second).2,second⟩
    else none
  | .invalidate client => some { s with state := s.state.invalidate client }

def initial (ttl now : Nat) : Clocked := ⟨.new ttl,now⟩

end Malkuth.Proxy
