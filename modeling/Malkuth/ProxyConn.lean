import Malkuth.Failover
import Malkuth.Headers

/-! One connection through the sticky proxy: `handle_client` of `proxy.rs` and `handle_ipc_client`
of `ipc_proxy.rs`. The pool may publish another ring at any time, and the other clients share the
ring and the cache. The client's bytes wait in its socket until a backend has been found; if there
is none, a TCP client that speaks HTTP gets a page. What `copy_bidirectional` does with the two
streams it is given is no part of this. -/
namespace Malkuth.ProxyConn

open Transition Proxy Failover

inductive Phase where
  /-- The loop over the backends. -/
  | seeking
  /-- `client_looks_like_http`. -/
  | sniffing
  /-- `write_all` of the maintenance page. -/
  | paging
  /-- `copy_bidirectional`. -/
  | copying
  | finished
  deriving DecidableEq, Repr

/-- `unread` are the bytes that wait in the client's socket, `sent` those that the proxy itself has
written to it, `handed` the backend and what waited when both streams were given to the copying. -/
structure Conn where
  task : Task
  phase : Phase
  unread : List UInt8
  closed : Bool
  sent : List UInt8
  handed : Option (SocketAddr × List UInt8)

/-- `key` is what a client is routed by; `page` what a client without a backend may get, where the
proxy sniffs for HTTP. -/
structure Config where
  key : String
  page : Option (List UInt8)

def httpMethods : List String := ["GET","HEAD","POST","PUT","DELETE","CONNECT","OPTIONS","TRACE","PATCH"]

def lowerByte (b : UInt8) : UInt8 := if 65 ≤ b ∧ b ≤ 90 then b + 32 else b

def looksLikeHttp (head : List UInt8) : Bool :=
  httpMethods.any fun m =>
    let m := Headers.ascii m
    m.length < head.length && (head.take m.length).map lowerByte == m.map lowerByte && head[m.length]? == some 32

def sniffBytes : Nat := 16

inductive Event where
  /-- The task over the backends, or another client. -/
  | task (e : Failover.Event)
  | setBackends (backends : List Backend)
  /-- The client writes. -/
  | arrive (bytes : List UInt8)
  | close
  /-- `peek` has returned so many bytes. -/
  | peek (n : Nat)
  /-- It failed, or timed out. -/
  | peekFails
  /-- `write_all` has ended, by itself or by an error, after so many bytes of the page. -/
  | page (n : Nat)
  | copied

def Phase.after (page : Option (List UInt8)) : Point → Phase
  | .served _ => .copying
  | .nobody => if page.isSome then .sniffing else .finished
  | .panicked => .finished
  | _ => .seeking

/-- What goes to the copying. -/
def handover (unread : List UInt8) : Point → Option (SocketAddr × List UInt8)
  | .served addr => some (addr,unread)
  | _ => none

variable (by_ : UnstableSort) (cfg : Config)

def step (c : Conn) : Event → Option Conn
  | .task e =>
    if e.own then
      if c.phase = .seeking then
        (Failover.step cfg.key c.task e).map fun task =>
          { c with task := task, phase := .after cfg.page task.point, handed := handover c.unread task.point }
      else none
    else (Failover.step cfg.key c.task e).map fun task => { c with task := task }
  | .setBackends backends =>
    some { c with task := { c.task with proxy := c.task.proxy.setBackends by_ backends } }
  | .arrive bytes =>
    if c.closed then none
    -- once handed over the socket is the copying's
    else if c.handed.isSome then some c
    else some { c with unread := c.unread ++ bytes }
  | .close => some { c with closed := true }
  | .peek n =>
    if c.phase = .sniffing ∧ n ≤ sniffBytes ∧ n ≤ c.unread.length ∧ (n = 0 → c.closed) then
      some { c with phase := if looksLikeHttp (c.unread.take n) then .paging else .finished }
    else none
  | .peekFails => if c.phase = .sniffing then some { c with phase := .finished } else none
  | .page n =>
    match cfg.page with
    | some page =>
      if c.phase = .paging ∧ n ≤ page.length then some { c with phase := .finished, sent := page.take n } else none
    | none => none
  | .copied => if c.phase = .copying then some { c with phase := .finished } else none

def initial (proxy : ProxyState) : Conn := ⟨Failover.initial proxy,.seeking,[],false,[],none⟩

section Tries

def won : Point → List (SocketAddr × Bool)
  | .served addr => [(addr,true)]
  | _ => []

theorem won_nil (unserved : ∀ addr, point ≠ .served addr) : won point = [] := by
  cases point with
  | served addr => exact absurd rfl (unserved addr)
  | _ => rfl

structure Tries (by_ : UnstableSort) (Seen : SocketAddr → Prop) (tried : List (SocketAddr × Bool)) (s : Task) : Prop where
  built : Built by_ s.proxy.ring
  once : s.dead.Nodup
  logged : tried = s.dead.map (·,false) ++ won s.point
  next : ∀ addr, s.point = .connecting addr ∨ s.point = .served addr → addr ∉ s.dead ∧ Seen addr
  known : ∀ addr ∈ s.dead, Seen addr

variable {by_} {cfg}

theorem Tries.moves (tries : Tries by_ Seen tried s) (same : s'.proxy.ring = s.proxy.ring) (dead : s'.dead = s.dead)
    (unserved : ∀ addr, s.point ≠ .served addr) (waits : ∀ addr, s'.point ≠ .served addr)
    (next : ∀ addr, s'.point = .connecting addr → addr ∉ s.dead ∧ Seen addr) : Tries by_ Seen tried s' := by
  refine ⟨same ▸ tries.built,dead ▸ tries.once,?_,?_,dead ▸ tries.known⟩
  · rw [tries.logged,dead,won_nil unserved,won_nil waits]
  · rw [dead]
    rintro addr (toward | there)
    · exact next addr toward
    · exact absurd there (waits addr)

theorem Tries.step (tries : Tries by_ Seen tried s) (steps : Failover.Steps key s e s')
    (here : ∀ b ∈ s.proxy.ring.backends, Seen b.addr) :
    Tries by_ Seen (tried ++ (Failover.attempted ⟨s,e,s'⟩).toList) s' := by
  have quiet : ∀ P : Option (SocketAddr × Bool), P = none → tried ++ P.toList = tried := by simp
  cases steps with
  | @found now addr point hit =>
    obtain ⟨_,alive,⟨b,member,is⟩,_⟩ := (hit_eq_some s.proxy).mp hit
    rw [quiet _ (by simp [Failover.attempted])]
    refine tries.moves rfl rfl (by simp [point]) (by simp) ?_
    rintro _ ⟨rfl⟩
    exact ⟨alive,is ▸ here b member⟩
  | missed point =>
    rw [quiet _ (by simp [Failover.attempted])]
    exact tries.moves rfl rfl (by simp [point]) (by simp) (by simp)
  | @routed b proxy now point routed fits same =>
    obtain ⟨backends,built⟩ := tries.built
    rw [built] at routed here
    obtain ⟨member,alive⟩ := Ring.routeExcluding_eq_some by_ backends key s.dead routed
    rw [quiet _ (by simp [Failover.attempted])]
    refine tries.moves same.ring rfl (by simp [point]) (by simp) ?_
    rintro _ ⟨rfl⟩
    exact ⟨alive,here b member⟩
  | exhausted point nobody =>
    rw [quiet _ (by simp [Failover.attempted])]
    exact tries.moves rfl rfl (by simp [point]) (by simp) (by simp)
  | overflowed point routed clean full same =>
    rw [quiet _ (by simp [Failover.attempted])]
    exact tries.moves same.ring rfl (by simp [point]) (by simp) (by simp)
  | @accepted addr point =>
    refine ⟨tries.built,tries.once,?_,?_,tries.known⟩
    · rw [tries.logged]
      simp [Failover.attempted,point,won]
    · rintro other (toward | there)
      · simp at toward
      · exact tries.next other (.inl (by simpa [point] using there))
  | @refused addr point =>
    obtain ⟨alive,seen⟩ := tries.next addr (.inl point)
    refine ⟨tries.built,?_,?_,by simp,?_⟩
    · exact tries.once.append (List.nodup_singleton addr) (by simpa using alive)
    · rw [tries.logged]
      simp [Failover.attempted,point,won]
    · exact List.forall_mem_append.mpr ⟨tries.known,List.forall_mem_singleton.mpr seen⟩
  | invalidated point same =>
    rw [quiet _ (by simp [Failover.attempted])]
    exact tries.moves same.ring rfl (by simp [point]) (by simp) (by simp)
  | others beside same =>
    have none_ : Failover.attempted ⟨s,e,{ s with proxy := ‹_› }⟩ = none := by
      cases e <;> first | rfl | simp [Event.own] at beside
    rw [quiet _ none_]
    exact ⟨same.ring ▸ tries.built,tries.once,tries.logged,tries.next,tries.known⟩

theorem Tries.imp (tries : Tries by_ Seen tried s) (weaker : ∀ addr, Seen addr → Seen' addr) : Tries by_ Seen' tried s :=
  ⟨tries.built,tries.once,tries.logged,fun addr there => (tries.next addr there).imp_right (weaker addr),
    fun addr member => weaker addr (tries.known addr member)⟩

theorem Tries.published (tries : Tries by_ Seen tried s) (backends : List Backend) :
    Tries by_ Seen tried { s with proxy := s.proxy.setBackends by_ backends } :=
  ⟨⟨backends,rfl⟩,tries.once,tries.logged,tries.next,tries.known⟩

/-- Nobody was found, so every backend of the ring as it was then has refused. -/
theorem Tries.spent (tries : Tries by_ Seen tried s) (steps : Failover.Steps key s e s') (nobody : s'.point = .nobody)
    (before : s.point ≠ .nobody) : ∀ b ∈ s.proxy.ring.backends, (b.addr,false) ∈ tried := by
  cases steps with
  | exhausted point exhausted =>
    obtain ⟨backends,built⟩ := tries.built
    rw [built] at exhausted ⊢
    have all := (Ring.routeExcluding_eq_none by_ backends key s.dead).mp exhausted
    intro b member
    rw [tries.logged]
    exact List.mem_append_left _ (List.mem_map.mpr ⟨b.addr,all b member,rfl⟩)
  | others => exact absurd nobody before
  | _ => simp at nobody

end Tries

section Runs

def attempted (t : Taken Conn Event) : Option (SocketAddr × Bool) :=
  match t.event with
  | .task e => Failover.attempted ⟨t.pre.task,e,t.post.task⟩
  | _ => none

def attempts (past : List (Taken Conn Event)) : List (SocketAddr × Bool) := past.filterMap attempted

def Event.fromClient : Event → List UInt8
  | .arrive bytes => bytes
  | _ => []

def clientBytes (past : List (Taken Conn Event)) : List UInt8 := past.flatMap fun t => t.event.fromClient

/-- The address was in the ring at some time. -/
def Published (past : List (Taken Conn Event)) (addr : SocketAddr) : Prop :=
  ∃ u ∈ past, ∃ b ∈ u.pre.task.proxy.ring.backends, b.addr = addr

def Refused (past : List (Taken Conn Event)) : Prop :=
  ∃ u ∈ past, ∀ b ∈ u.pre.task.proxy.ring.backends, (b.addr,false) ∈ attempts past

/-- The sticky entry of a choice would have ended after the last `Instant`. -/
def Overlong (past : List (Taken Conn Event)) : Prop :=
  ∃ u ∈ past, ∃ now, u.event = .task (.route now) ∧ instantLimit ≤ now + u.pre.task.proxy.ttl

def SpeaksHttp (past : List (Taken Conn Event)) : Prop :=
  ∃ head, head <+: clientBytes past ∧ head.length ≤ sniffBytes ∧ looksLikeHttp head = true

variable {by_ : UnstableSort} {cfg : Config}

theorem attempts_snoc : attempts (past ++ [t]) = attempts past ++ (attempted t).toList := by
  cases last : attempted t <;> simp [attempts,last]

theorem clientBytes_snoc : clientBytes (past ++ [t]) = clientBytes past ++ t.event.fromClient := by simp [clientBytes]

theorem Published.later (published : Published past addr) (t : Taken Conn Event) : Published (past ++ [t]) addr := by
  obtain ⟨u,member,ring⟩ := published
  exact ⟨u,List.mem_append_left _ member,ring⟩

theorem Refused.later (refused : Refused past) (t : Taken Conn Event) : Refused (past ++ [t]) := by
  obtain ⟨u,member,all⟩ := refused
  refine ⟨u,List.mem_append_left _ member,fun b inside => ?_⟩
  rw [attempts_snoc]
  exact List.mem_append_left _ (all b inside)

theorem Overlong.later (overlong : Overlong past) (t : Taken Conn Event) : Overlong (past ++ [t]) := by
  obtain ⟨u,member,now,route,full⟩ := overlong
  exact ⟨u,List.mem_append_left _ member,now,route,full⟩

theorem SpeaksHttp.later (speaks : SpeaksHttp past) (t : Taken Conn Event) : SpeaksHttp (past ++ [t]) := by
  obtain ⟨head,first,short,http⟩ := speaks
  refine ⟨head,?_,short,http⟩
  rw [clientBytes_snoc]
  exact first.trans (List.prefix_append _ _)

structure Served (past : List (Taken Conn Event)) (c : Conn) (addr : SocketAddr) : Prop where
  phase : c.phase = .copying ∨ c.phase = .finished
  handed : ∃ stream, c.handed = some (addr,stream) ∧ stream <+: clientBytes past
  silent : c.sent = []

structure Unserved (cfg : Config) (past : List (Taken Conn Event)) (c : Conn) : Prop where
  phase : c.phase ≠ .copying
  kept : c.handed = none
  untouched : c.unread = clientBytes past
  seeking : c.task.point = .nobody ∨ c.task.point = .panicked ↔ c.phase ≠ .seeking
  nobody : c.phase = .sniffing ∨ c.phase = .paging → c.task.point = .nobody
  http : c.phase = .paging → SpeaksHttp past
  sent : c.sent = [] ∨ ∃ page, cfg.page = some page ∧ c.sent <+: page ∧ c.task.point = .nobody ∧ SpeaksHttp past

structure Sound (by_ : UnstableSort) (cfg : Config) (past : List (Taken Conn Event)) (c : Conn) : Prop where
  tries : Tries by_ (Published past) (attempts past) c.task
  refused : c.task.point = .nobody → Refused past
  overlong : c.task.point = .panicked → Overlong past
  served : ∀ addr, c.task.point = .served addr → Served past c addr
  unserved : (∀ addr, c.task.point ≠ .served addr) → Unserved cfg past c

theorem published_now (c c' : Conn) (e : Event) : ∀ b ∈ c.task.proxy.ring.backends, Published (past ++ [⟨c,e,c'⟩]) b.addr := by
  intro b member
  exact ⟨_,List.mem_append_right _ (List.mem_singleton_self _),b,member,rfl⟩

/-- A step that leaves the loop where it is. -/
theorem Sound.beside (sound : Sound by_ cfg past c) (t : Taken Conn Event) (point : c'.task.point = c.task.point)
    (tries : Tries by_ (Published (past ++ [t])) (attempts past) c'.task) (quiet : attempted t = none)
    (served : ∀ addr, Served past c addr → Served (past ++ [t]) c' addr)
    (unserved : Unserved cfg past c → Unserved cfg (past ++ [t]) c') : Sound by_ cfg (past ++ [t]) c' where
  tries := by rw [attempts_snoc,quiet]; simpa using tries
  refused nobody := (sound.refused (point ▸ nobody)).later t
  overlong panicked := (sound.overlong (point ▸ panicked)).later t
  served addr there := served addr (sound.served addr (point ▸ there))
  unserved none_ := unserved (sound.unserved (point ▸ none_))

theorem Served.later (served : Served past c addr) (t : Taken Conn Event) (phase : c'.phase = c.phase ∨ c'.phase = .finished)
    (handed : c'.handed = c.handed) (sent : c'.sent = c.sent) : Served (past ++ [t]) c' addr := by
  obtain ⟨stream,is,first⟩ := served.handed
  refine ⟨?_,⟨stream,handed.trans is,?_⟩,sent.trans served.silent⟩
  · rcases phase with kept | finished
    · exact kept ▸ served.phase
    · exact .inr finished
  · rw [clientBytes_snoc]
    exact first.trans (List.prefix_append _ _)

/-- Nothing happens to a connection without a backend but that the client may have written, or
that it has ended. -/
theorem Unserved.later (unserved : Unserved cfg past c) (t : Taken Conn Event) (point : c'.task.point = c.task.point)
    (phase : c'.phase = c.phase ∨ c'.phase = .finished ∧ (c.phase = .sniffing ∨ c.phase = .paging))
    (handed : c'.handed = c.handed) (unread : c'.unread = c.unread ++ t.event.fromClient) (sent : c'.sent = c.sent) :
    Unserved cfg (past ++ [t]) c' where
  phase := by
    rcases phase with kept | ⟨finished,_⟩
    · exact kept ▸ unserved.phase
    · simp [finished]
  kept := handed.trans unserved.kept
  untouched := by rw [unread,clientBytes_snoc,unserved.untouched]
  seeking := by
    rw [point,unserved.seeking]
    rcases phase with kept | ⟨finished,sniffing | paging⟩ <;> simp [*]
  nobody early := by
    rw [point]
    rcases phase with kept | ⟨finished,_⟩
    · exact unserved.nobody (kept ▸ early)
    · simp [finished] at early
  http paging := by
    rcases phase with kept | ⟨finished,_⟩
    · exact (unserved.http (kept ▸ paging)).later t
    · simp [finished] at paging
  sent := by
    rw [sent,point]
    exact unserved.sent.imp_right fun ⟨page,asked,first,nobody,speaks⟩ => ⟨page,asked,first,nobody,speaks.later t⟩

/-- Another client does something. -/
theorem Sound.others (sound : Sound by_ cfg past c) (beside : e.own = false) (taken : Failover.step cfg.key c.task e = some task) :
    Sound by_ cfg (past ++ [⟨c,.task e,{ c with task := task }⟩]) { c with task := task } := by
  have steps := step_steps cfg.key _ _ _ taken
  have tries := (sound.tries.imp fun _ published => published.later ⟨c,.task e,{ c with task := task }⟩).step steps (published_now c _ _)
  have none_ : Failover.attempted ⟨c.task,e,task⟩ = none := by
    cases e <;> first | rfl | simp [Failover.Event.own] at beside
  have point : task.point = c.task.point := by
    cases steps with
    | others => rfl
    | _ => simp [Failover.Event.own] at beside
  rw [none_,Option.toList_none,List.append_nil] at tries
  exact sound.beside _ point tries none_ (fun addr served => served.later _ (.inl rfl) rfl rfl)
    fun unserved => unserved.later _ point (.inl rfl) rfl (List.append_nil _).symm rfl

theorem overlong_step (steps : Failover.Steps key s e s') (panicked : s'.point = .panicked) (before : s.point ≠ .panicked) :
    ∃ now, e = .route now ∧ instantLimit ≤ now + s.proxy.ttl := by
  cases steps with
  | @overflowed b now proxy point routed clean full same => exact ⟨_,rfl,Nat.le_of_not_lt full⟩
  | others => exact absurd panicked before
  | _ => simp at panicked

/-- The loop takes a step. -/
theorem Sound.seeks (sound : Sound by_ cfg past c) (here : c.phase = .seeking) (taken : Failover.step cfg.key c.task e = some task)
    (after : c' = { c with task := task, phase := .after cfg.page task.point, handed := handover c.unread task.point }) :
    Sound by_ cfg (past ++ [⟨c,.task e,c'⟩]) c' := by
  subst after
  have steps := step_steps cfg.key _ _ _ taken
  have unserved : ∀ addr, c.task.point ≠ .served addr := by
    intro addr there
    rcases (sound.served addr there).phase with phase | phase <;> simp [here] at phase
  obtain ⟨_,_,untouched,seeking,_,_,sent⟩ := sound.unserved unserved
  obtain ⟨open_,sane⟩ := not_or.mp (seeking.not.mpr (not_not.mpr here))
  have silent : c.sent = [] := sent.resolve_right fun ⟨_,_,_,nobody,_⟩ => open_ nobody
  have last {t : Taken Conn Event} : t ∈ past ++ [t] := List.mem_append_right _ (List.mem_singleton_self _)
  refine ⟨?_,?_,?_,?_,?_⟩
  · rw [attempts_snoc]
    exact (sound.tries.imp fun _ published => published.later _).step steps (published_now c _ _)
  · intro (nobody : task.point = _)
    have all := sound.tries.spent steps nobody open_
    refine ⟨_,last,fun b member => ?_⟩
    rw [attempts_snoc]
    exact List.mem_append_left _ (all b member)
  · intro (panicked : task.point = _)
    obtain ⟨now,rfl,full⟩ := overlong_step steps panicked sane
    exact ⟨_,last,now,rfl,full⟩
  · intro addr (there : task.point = _)
    refine ⟨.inl (by simp [there,Phase.after]),⟨c.unread,by simp [there,handover],?_⟩,silent⟩
    rw [untouched,clientBytes_snoc]
    exact List.prefix_append _ _
  · intro (none_ : ∀ addr, task.point ≠ .served addr)
    have unread (c' : Conn) : c.unread = clientBytes (past ++ [⟨c,.task e,c'⟩]) := by
      rw [clientBytes_snoc,untouched]
      exact (List.append_nil _).symm
    cases point : task.point with
    | served addr => exact absurd point (none_ addr)
    | nobody =>
      refine ⟨?_,rfl,unread _,?_,fun _ => point,?_,.inl silent⟩
      all_goals cases cfg.page <;> simp [Phase.after,point]
    | _ => exact ⟨by simp [Phase.after],rfl,unread _,by simp [Phase.after,point],by simp [Phase.after],by simp [Phase.after],.inl silent⟩

/-- The bytes that were peeked look like HTTP. -/
theorem Sound.sniffs (sound : Sound by_ cfg past c) (sniffing : c.phase = .sniffing) (short : n ≤ sniffBytes)
    (http : looksLikeHttp (c.unread.take n) = true) :
    Sound by_ cfg (past ++ [⟨c,.peek n,{ c with phase := .paging }⟩]) { c with phase := .paging } := by
  refine sound.beside _ rfl (sound.tries.imp fun _ published => published.later _) rfl (fun addr served => ?_) fun unserved => ?_
  · rcases served.phase with phase | phase <;> simp [sniffing] at phase
  · obtain ⟨_,kept,untouched,_,nobody,_,sent⟩ := unserved
    have there := nobody (.inl sniffing)
    have speaks : SpeaksHttp (past ++ [⟨c,.peek n,{ c with phase := .paging }⟩]) := by
      refine SpeaksHttp.later ⟨_,?_,(List.length_take_le n _).trans short,http⟩ _
      rw [untouched]
      exact List.take_prefix n _
    refine ⟨by simp,kept,?_,by simp [there],fun _ => there,fun _ => speaks,?_⟩
    · rw [clientBytes_snoc,untouched]
      exact (List.append_nil _).symm
    · exact sent.imp_right fun ⟨page,asked,first,nobody,_⟩ => ⟨page,asked,first,nobody,speaks⟩

/-- The page is written, as far as it goes. -/
theorem Sound.pages (sound : Sound by_ cfg past c) (asked : cfg.page = some page) (paging : c.phase = .paging) :
    Sound by_ cfg (past ++ [⟨c,.page n,{ c with phase := .finished, sent := page.take n }⟩])
      { c with phase := .finished, sent := page.take n } := by
  refine sound.beside _ rfl (sound.tries.imp fun _ published => published.later _) rfl (fun addr served => ?_) fun unserved => ?_
  · rcases served.phase with phase | phase <;> simp [paging] at phase
  · obtain ⟨_,kept,untouched,_,nobody,http,_⟩ := unserved
    have there := nobody (.inr paging)
    refine ⟨by simp,kept,?_,by simp [there],by simp,by simp,.inr ⟨page,asked,List.take_prefix n _,there,(http paging).later _⟩⟩
    rw [clientBytes_snoc,untouched]
    exact (List.append_nil _).symm

theorem step_sound (sound : Sound by_ cfg past c) (taken : step by_ cfg c e = some c') : Sound by_ cfg (past ++ [⟨c,e,c'⟩]) c' := by
  have tries : ∀ t, Tries by_ (Published (past ++ [t])) (attempts past) c.task := fun t =>
    sound.tries.imp fun _ published => published.later t
  cases e with
  | task e =>
    simp only [step] at taken
    split at taken
    next own =>
      obtain ⟨here,taken⟩ := Option.ite_none_right_eq_some.mp taken
      obtain ⟨task,moved,rfl⟩ := Option.map_eq_some_iff.mp taken
      exact sound.seeks here moved rfl
    next other =>
      obtain ⟨task,moved,rfl⟩ := Option.map_eq_some_iff.mp taken
      exact sound.others (Bool.not_eq_true _ ▸ other) moved
  | setBackends backends =>
    obtain rfl := Option.some.inj taken
    exact sound.beside _ rfl ((tries _).published backends) rfl (fun addr served => served.later _ (.inl rfl) rfl rfl)
      fun unserved => unserved.later _ rfl (.inl rfl) rfl (List.append_nil _).symm rfl
  | close =>
    obtain rfl := Option.some.inj taken
    exact sound.beside _ rfl (tries _) rfl (fun addr served => served.later _ (.inl rfl) rfl rfl)
      fun unserved => unserved.later _ rfl (.inl rfl) rfl (List.append_nil _).symm rfl
  | arrive bytes =>
    simp only [step] at taken
    split at taken
    · contradiction
    split at taken
    next given =>
      obtain rfl := Option.some.inj taken
      refine sound.beside _ rfl (tries _) rfl (fun addr served => served.later _ (.inl rfl) rfl rfl) fun unserved => ?_
      simp [unserved.kept] at given
    next =>
      obtain rfl := Option.some.inj taken
      exact sound.beside _ rfl (tries _) rfl (fun addr served => served.later _ (.inl rfl) rfl rfl)
        fun unserved => unserved.later _ rfl (.inl rfl) rfl rfl rfl
  | peekFails =>
    obtain ⟨sniffing,taken⟩ := Option.ite_none_right_eq_some.mp taken
    obtain rfl := Option.some.inj taken
    exact sound.beside _ rfl (tries _) rfl (fun addr served => served.later _ (.inr rfl) rfl rfl)
      fun unserved => unserved.later _ rfl (.inr ⟨rfl,.inl sniffing⟩) rfl (List.append_nil _).symm rfl
  | copied =>
    obtain ⟨copying,taken⟩ := Option.ite_none_right_eq_some.mp taken
    obtain rfl := Option.some.inj taken
    exact sound.beside _ rfl (tries _) rfl (fun addr served => served.later _ (.inr rfl) rfl rfl)
      fun unserved => absurd copying unserved.phase
  | peek n =>
    obtain ⟨⟨sniffing,short,_,_⟩,taken⟩ := Option.ite_none_right_eq_some.mp taken
    obtain rfl := Option.some.inj taken
    by_cases http : looksLikeHttp (c.unread.take n) = true
    · rw [if_pos http]
      exact sound.sniffs sniffing short http
    · rw [if_neg http]
      exact sound.beside _ rfl (tries _) rfl (fun addr served => served.later _ (.inr rfl) rfl rfl)
        fun unserved => unserved.later _ rfl (.inr ⟨rfl,.inl sniffing⟩) rfl (List.append_nil _).symm rfl
  | page n =>
    simp only [step] at taken
    split at taken
    next page asked =>
      obtain ⟨⟨paging,_⟩,taken⟩ := Option.ite_none_right_eq_some.mp taken
      obtain rfl := Option.some.inj taken
      exact sound.pages asked paging
    · contradiction

theorem run_sound (built : Built by_ proxy.ring) (run : Run (step by_ cfg) (initial proxy) past c) : Sound by_ cfg past c := by
  induction run with
  | nil =>
    refine ⟨⟨built,.nil,rfl,?_,?_⟩,?_,?_,?_,fun _ => ⟨?_,rfl,rfl,?_,?_,?_,.inl rfl⟩⟩
    all_goals simp [initial,Failover.initial]
  | snoc _ taken ih => exact step_sound ih taken

end Runs

end Malkuth.ProxyConn
