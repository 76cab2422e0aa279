import P2PFileSync.Foundations.Walks
import P2PFileSync.Network.Relaying

/-!
# A packet without a route

When every routing table holds exactly the neighbours of its node, a packet for
a distant node is broadcast at every hop until it meets a neighbour of the
receiver. A node acts on the first copy it reads, and the ttl of this copy
decides how far the packet goes from there.

`Spread` numbers the nodes by these ttl's along a run. Every step keeps it
(`Spread.fires`), and when nothing is in flight any more and the receiver has not
processed the packet, the numbers are those of a spread that dies out before the
receiver (`Spread.diesOut`).
-/

set_option autoImplicit false

namespace P2PFileSync

universe u

namespace Network

open SimpleGraph (DiesOut)

variable {ι : Type u} [DecidableEq ι] {net : Network ι} {G : SimpleGraph ι}

/-! ## Routing tables of neighbours -/

/-- Every routing table holds exactly the neighbours of its node, each over
itself. -/
structure Neighbours (net : Network ι) (G : SimpleGraph ι) (s : NetState ι) : Prop where
  distinct : ∀ n m, (s.node n).deviceId = (s.node m).deviceId → n = m
  entries : ∀ n, ∀ entry ∈ (s.node n).routingTable.getRoutingTable,
    ∃ m, G.Adj n m ∧ entry.1 = (s.node m).deviceId ∧ net.connect n entry.2.1 = some m
  routes : ∀ n m, G.Adj n m →
    ∃ entry ∈ (s.node n).routingTable.getRoutingTable, entry.1 = (s.node m).deviceId

/-- No step changes the routing tables. -/
theorem Neighbours.fired {s t : NetState ι} {token : InFlight ι} {produced : List (InFlight ι)}
    (neighbours : Neighbours net G s) (fired : Fired net s token t produced) :
    Neighbours net G t where
  distinct n m same := by
    rw [(fired.node_frame n).1, (fired.node_frame m).1] at same
    exact neighbours.distinct n m same
  entries n entry listed := by
    rw [(fired.node_frame n).2.2.1] at listed
    obtain ⟨m, adjacent, same, accepted⟩ := neighbours.entries n entry listed
    exact ⟨m, adjacent, same.trans (fired.node_frame m).1.symm, accepted⟩
  routes n m adjacent := by
    rw [(fired.node_frame n).2.2.1, (fired.node_frame m).1]
    exact neighbours.routes n m adjacent

section Dispatch

variable {s : NetState ι} {n r : ι} {sin : SockaddrIn} {copy : SignedProtoMessage}
  {tasks : List Task}

omit [DecidableEq ι] in
/-- The tasks of a relayed packet go to neighbours. -/
theorem Neighbours.destination (neighbours : Neighbours net G s)
    (dispatched : Dispatched (s.node n) copy sin tasks) {new : InFlight ι}
    (member : new ∈ tasks.filterMap (InFlight.ofTask n)) :
    ∃ ipAddr m, new = .task n (s.node n).port copy ipAddr ∧ net.connect n ipAddr = some m ∧
      G.Adj n m := by
  obtain ⟨task, submitted, waits⟩ := List.mem_filterMap.mp member
  rcases dispatched.mem submitted with ⟨rfl, _⟩ | ⟨entry, listed, rfl, _⟩
  · cases waits
  · cases waits
    obtain ⟨m, adjacent, _, accepted⟩ := neighbours.entries n entry listed
    exact ⟨_, m, rfl, accepted, adjacent⟩

omit [DecidableEq ι] in
/-- A relayed packet goes to every neighbour, or only to the receiver if it is
one of them. -/
theorem Neighbours.reaches (neighbours : Neighbours net G s)
    (dispatched : Dispatched (s.node n) copy sin tasks)
    (receiver : copy.receiver = (s.node r).deviceId) (different : n ≠ r) {m : ι}
    (adjacent : G.Adj n m) (only : G.Adj n r → m = r) :
    ∃ ipAddr, InFlight.task n (s.node n).port copy ipAddr ∈
        tasks.filterMap (InFlight.ofTask n) ∧ net.connect n ipAddr = some m := by
  cases dispatched with
  | handle here => exact absurd (neighbours.distinct n r (here.trans receiver)) different
  | unicast peer _ _ route =>
      obtain ⟨entry, listed, named, rfl⟩ := RoutingTable.exists_entry_of_getNextPeer route
      obtain ⟨next, near, same, accepted⟩ := neighbours.entries n entry listed
      obtain rfl := neighbours.distinct r next (receiver.symm.trans (named.symm.trans same))
      rw [only near]
      exact ⟨_, List.mem_filterMap.mpr ⟨_, List.mem_singleton_self _, rfl⟩, accepted⟩
  | broadcast _ _ =>
      obtain ⟨entry, listed, named⟩ := neighbours.routes n m adjacent
      obtain ⟨next, _, same, accepted⟩ := neighbours.entries n entry listed
      obtain rfl := neighbours.distinct m next (named.symm.trans same)
      exact ⟨_, List.mem_filterMap.mpr ⟨_, List.mem_map_of_mem listed, rfl⟩, accepted⟩

end Dispatch

/-! ## How the packet spreads -/

section Spread

variable (net G)

/-- The node has taken the signature into its cache. -/
def Processed (signature : Bytes) (s : NetState ι) (n : ι) : Prop :=
  signature ∈ (s.node n).packetCache.cacheMap

/-- This token brings a copy to the node that has not expired there. -/
def Brings (m : ι) : InFlight ι → Prop
  | .task owner _ copy ipAddr => net.connect owner ipAddr = some m ∧ 1 < copy.ttl
  | .frame dst _ copy => dst = m ∧ copy.ttl ≠ 0

/-- The node has processed the packet, or a copy will come. -/
def Settled (signature : Bytes) (c : Config ι) (m : ι) : Prop :=
  Processed signature c.state m ∨ ∃ token ∈ c.tokens, Brings net m token

/-- Where a copy in flight comes from: from outside to `v`, or from a node that
read the packet with the ttl of the copy, which sending takes one from. -/
def Origin (v : ι) (ttl : UInt32) (left : ι → ℕ) : InFlight ι → Prop
  | .task owner _ copy ipAddr =>
      copy.ttl ≠ 0 ∧ left owner = copy.ttl.toNat ∧
        ∃ m, net.connect owner ipAddr = some m ∧ G.Adj owner m
  | .frame dst _ copy =>
      (dst = v ∧ copy.ttl = ttl) ∨ ∃ n, G.Adj n dst ∧ left n = copy.ttl.toNat + 1

/-- The packet was submitted to the handler of the node. -/
def Submitted (msg : SignedProtoMessage) (s : NetState ι) (n : ι) : Prop :=
  ∃ entry ∈ s.log, entry.dst = n ∧ entry.handled ∧ msg.SamePacket entry.msg

/-- The state of a flooding that started at `v` with nothing else in flight.
`left n` is the ttl of the copy that the node `n` acted on, 0 before. -/
structure Spread (v r : ι) (sin : SockaddrIn) (msg : SignedProtoMessage) (left : ι → ℕ)
    (c : Config ι) : Prop where
  neighbours : Neighbours net G c.state
  receiver : (c.state.node r).deviceId = msg.receiver
  room : ∀ n, 0 < (c.state.node n).packetCache.maxCacheSize
  same : ∀ token ∈ c.tokens, msg.SamePacket token.msg
  origin : ∀ token ∈ c.tokens, Origin net G v msg.ttl left token
  processed : ∀ n, left n ≠ 0 ↔ Processed msg.signature c.state n
  start : left v = msg.ttl.toNat ∨ (c.tokens = [.frame v sin msg] ∧ ∀ n, left n = 0)
  most : ∀ n, left n ≤ msg.ttl.toNat
  first : ∀ n, n ≠ v → left n ≠ 0 → ∃ p, G.Adj p n ∧ left p = left n + 1
  sentOn : ∀ n, n ≠ r → 1 < left n →
    ∀ m, G.Adj n m → (G.Adj n r → m = r) → Settled net msg.signature c m
  submitted : Processed msg.signature c.state r → Submitted msg c.state r

end Spread

/-! ## One step -/

section Step

variable {v r : ι} {sin : SockaddrIn} {msg : SignedProtoMessage} {left : ι → ℕ} {s t : NetState ι}
  {c d : Config ι} {token : InFlight ι} {produced : List (InFlight ι)}

/-- A node that has processed the packet stays so: a cache evicts only to take
in another packet. -/
theorem Processed.fired {n : ι} (processed : Processed msg.signature s n)
    (fired : Fired net s token t produced) (same : msg.SamePacket token.msg) :
    Processed msg.signature t n := by
  cases fired with
  | sent | refused => exact processed
  | @dropped dst =>
      rw [Processed, NetState.deliver_node_same]
      exact processed
  | @passed dst _ copy _ _ passes =>
      have different : n ≠ dst := by
        rintro rfl
        exact passes.2 (same.signature ▸ processed)
      rw [Processed, NetState.deliver_node_of_ne different]
      exact processed

/-- A node comes to process the packet only by reading a copy that passes. -/
theorem passed_of_processed {n : ι} (fired : Fired net s token t produced)
    (before : ¬ Processed msg.signature s n) (after : Processed msg.signature t n) :
    ∃ sin copy tasks packetCache, token = .frame n sin copy ∧ Passes (s.node n) copy ∧
      (s.node n).packetCache.isCached copy.signature = some (false, packetCache) ∧
      Dispatched (s.node n) copy sin tasks ∧
      t = s.deliver { s.node n with packetCache := packetCache } ⟨n, copy, true, tasks⟩ ∧
      produced = tasks.filterMap (InFlight.ofTask n) := by
  rcases fired.mem_cacheMap after with old | ⟨sin, copy, rfl, _⟩
  · exact absurd old before
  · cases fired with
    | dropped _ =>
        rw [Processed, NetState.deliver_node_same] at after
        exact absurd after before
    | passed passes inserted dispatched =>
        exact ⟨sin, copy, _, _, rfl, passes, inserted, dispatched, rfl, rfl⟩

/-- A node that reads a copy which has not expired has processed the packet
afterwards. -/
theorem processed_of_read {n : ι} {copy : SignedProtoMessage}
    (fired : Fired net s (.frame n sin copy) t produced) (alive : copy.ttl ≠ 0)
    (same : msg.SamePacket copy) : Processed msg.signature t n := by
  rw [Processed, ← same.signature]
  cases fired with
  | dropped drop =>
      rw [NetState.deliver_node_same]
      by_contra missing
      exact drop ⟨alive, missing⟩
  | passed _ inserted _ =>
      rw [NetState.deliver_node_self]
      exact (FIFOCache.of_isCached_false inserted).2.1

/-- When a token brings a copy to a node and fires, the node has processed the
packet afterwards or a new token brings the copy. -/
theorem Brings.fired {m : ι} (brings : Brings net m token) (fired : Fired net s token t produced)
    (same : msg.SamePacket token.msg) :
    Processed msg.signature t m ∨ ∃ new ∈ produced, Brings net m new := by
  cases token with
  | task owner machinePort copy ipAddr =>
      obtain ⟨accepts, more⟩ := brings
      cases fired with
      | sent accepted =>
          obtain rfl := Option.some.inj (accepted.symm.trans accepts)
          exact .inr ⟨_, List.mem_singleton_self _, rfl,
            SignedProtoMessage.forwarded_alive machinePort more⟩
      | refused refusal =>
          rw [accepts] at refusal
          cases refusal
  | frame dst sin copy =>
      obtain ⟨rfl, alive⟩ := brings
      exact .inl (processed_of_read fired alive same)

/-- A settled node stays settled. -/
theorem Settled.fires {m : ι} (settled : Settled net msg.signature c m)
    (same : msg.SamePacket token.msg) {rest : List (InFlight ι)}
    (perm : c.tokens.Perm (token :: rest)) (tokens : d.tokens = rest ++ produced)
    (fired : Fired net c.state token d.state produced) : Settled net msg.signature d m := by
  rcases settled with processed | ⟨other, member, brings⟩
  · exact .inl (processed.fired fired same)
  · rcases List.mem_cons.mp (perm.mem_iff.mp member) with rfl | later
    · refine (brings.fired fired same).imp_right fun ⟨new, fresh, brings⟩ => ?_
      exact ⟨new, tokens ▸ List.mem_append_right _ fresh, brings⟩
    · exact .inr ⟨other, tokens ▸ List.mem_append_left _ later, brings⟩

omit [DecidableEq ι] in
/-- Numbers stay, so the origin of a copy stays. -/
theorem Origin.mono {ttl : UInt32} {left' : ι → ℕ} (origin : Origin net G v ttl left token)
    (kept : ∀ n, left n ≠ 0 → left' n = left n) : Origin net G v ttl left' token := by
  cases token with
  | task owner machinePort copy ipAddr =>
      obtain ⟨alive, number, m, accepted, adjacent⟩ := origin
      have positive : copy.ttl.toNat ≠ 0 := fun zero => alive (UInt32.toNat_inj.mp zero)
      exact ⟨alive, (kept owner (number ▸ positive)).trans number, m, accepted, adjacent⟩
  | frame dst sin copy =>
      refine origin.imp_right ?_
      rintro ⟨n, adjacent, number⟩
      exact ⟨n, adjacent, (kept n (by omega)).trans number⟩

/-- What a token produces has its origin in the node that fired it, once this
node is numbered. -/
theorem Origin.new {ttl : UInt32} {left' : ι → ℕ} (neighbours : Neighbours net G s)
    (origin : Origin net G v ttl left token) (kept : ∀ n, left n ≠ 0 → left' n = left n)
    (fired : Fired net s token t produced)
    (numbered : ∀ n sin copy, token = .frame n sin copy → Passes (s.node n) copy →
      left' n = copy.ttl.toNat) {new : InFlight ι} (fresh : new ∈ produced) :
    Origin net G v ttl left' new := by
  cases fired with
  | @sent owner machinePort copy ipAddr dst accepted =>
      obtain ⟨alive, number, m, accepts, adjacent⟩ := origin
      obtain rfl := Option.some.inj (accepted.symm.trans accepts)
      rw [List.mem_singleton.mp fresh]
      have more := SignedProtoMessage.forwarded_ttl machinePort alive
      exact .inr ⟨owner, adjacent, (kept owner (by omega)).trans (by omega)⟩
  | refused _ => cases fresh
  | dropped _ => cases fresh
  | @passed dst sin copy tasks packetCache passes inserted dispatched =>
      obtain ⟨ipAddr, m, rfl, accepted, adjacent⟩ := neighbours.destination dispatched fresh
      exact ⟨passes.1, numbered dst sin copy rfl passes, m, accepted, adjacent⟩

/-- `left'` are the numbers after a step: those from before, and the ttl of the
copy at a node that acts on it in this step. -/
structure Renumbered (msg : SignedProtoMessage) (left left' : ι → ℕ) (s : NetState ι)
    (token : InFlight ι) (t : NetState ι) (produced : List (InFlight ι)) : Prop where
  kept : ∀ n, left n ≠ 0 → left' n = left n
  processed : ∀ n, left' n ≠ 0 ↔ Processed msg.signature t n
  read : ∀ n, left n = 0 → left' n ≠ 0 → ∃ sin copy tasks, token = .frame n sin copy ∧
    Dispatched (s.node n) copy sin tasks ∧ produced = tasks.filterMap (InFlight.ofTask n) ∧
    left' n = copy.ttl.toNat ∧ ⟨n, copy, true, tasks⟩ ∈ t.log

/-- Every step has numbers afterwards. -/
theorem Spread.exists_renumbered (spread : Spread net G v r sin msg left c)
    (fired : Fired net c.state token t produced) (same : msg.SamePacket token.msg) :
    ∃ left', Renumbered msg left left' c.state token t produced := by
  have passed : ∀ n, left n = 0 → Processed msg.signature t n → ∃ sin copy tasks,
      token = .frame n sin copy ∧ copy.ttl.toNat ≠ 0 ∧ Dispatched (c.state.node n) copy sin tasks ∧
      produced = tasks.filterMap (InFlight.ofTask n) ∧ ⟨n, copy, true, tasks⟩ ∈ t.log := by
    intro n unnumbered after
    have before : ¬ Processed msg.signature c.state n := fun old =>
      (spread.processed n).mpr old unnumbered
    obtain ⟨sin, copy, tasks, _, rfl, passes, _, dispatched, rfl, rfl⟩ :=
      passed_of_processed fired before after
    exact ⟨sin, copy, tasks, rfl, fun zero => passes.1 (UInt32.toNat_inj.mp zero), dispatched, rfl,
      List.mem_append_right _ (List.mem_singleton_self _)⟩
  refine ⟨fun n => if left n = 0 ∧ msg.signature ∈ (t.node n).packetCache.cacheMap then
    token.msg.ttl.toNat else left n, ?_, ?_, ?_⟩
  · intro n numbered
    exact if_neg fun new => numbered new.1
  · intro n
    by_cases numbered : left n = 0
    · by_cases processed : Processed msg.signature t n
      · obtain ⟨_, _, _, rfl, alive, _⟩ := passed n numbered processed
        exact iff_of_true ((if_pos ⟨numbered, processed⟩).trans_ne alive) processed
      · exact iff_of_false (fun other => other ((if_neg fun new => processed new.2).trans numbered))
          processed
    · have old := (spread.processed n).mp numbered
      exact iff_of_true ((if_neg fun new => numbered new.1).trans_ne numbered)
        (old.fired fired same)
  · intro n unnumbered numbered
    by_cases processed : Processed msg.signature t n
    · obtain ⟨sin, copy, tasks, rfl, _, dispatched, produces, logged⟩ :=
        passed n unnumbered processed
      exact ⟨sin, copy, tasks, rfl, dispatched, produces, if_pos ⟨unnumbered, processed⟩, logged⟩
    · exact absurd ((if_neg fun new => processed new.2).trans unnumbered) numbered

/-- A node that reads a copy that passes gets its ttl as number. -/
theorem Renumbered.number_of_passes {left' : ι → ℕ} {n : ι} {copy : SignedProtoMessage}
    (renumbered : Renumbered msg left left' s (.frame n sin copy) t produced)
    (fired : Fired net s (.frame n sin copy) t produced) (same : msg.SamePacket copy)
    (processed : left n ≠ 0 → Processed msg.signature s n) (passes : Passes (s.node n) copy) :
    left' n = copy.ttl.toNat := by
  have unnumbered : left n = 0 := by
    by_contra numbered
    exact passes.2 (same.signature ▸ processed numbered)
  obtain ⟨_, _, _, token, _, _, number, _⟩ := renumbered.read n unnumbered
    ((renumbered.processed n).mpr (processed_of_read fired passes.1 same))
  cases token
  exact number

omit [DecidableEq ι] in
/-- No number exceeds the ttl at the start. -/
theorem Renumbered.most {left' : ι → ℕ}
    (renumbered : Renumbered msg left left' c.state token t produced)
    (spread : Spread net G v r sin msg left c) (member : token ∈ c.tokens) (n : ι) :
    left' n ≤ msg.ttl.toNat := by
  by_cases numbered : left n = 0
  · by_cases new : left' n = 0
    · omega
    · obtain ⟨_, copy, _, rfl, _, _, number, _⟩ := renumbered.read n numbered new
      rcases spread.origin _ member with ⟨_, whole⟩ | ⟨p, _, more⟩
      · rw [number, whole]
      · have bound := spread.most p
        omega
  · exact renumbered.kept n numbered ▸ spread.most n

/-- After a step the node where the packet came in has its ttl as number. -/
theorem Renumbered.start {left' : ι → ℕ}
    (renumbered : Renumbered msg left left' c.state token t produced)
    (spread : Spread net G v r sin msg left c) (member : token ∈ c.tokens)
    (fired : Fired net c.state token t produced) : left' v = msg.ttl.toNat := by
  have bound := renumbered.most spread member v
  rcases spread.start with number | ⟨initial, unnumbered⟩
  · by_cases numbered : left v = 0
    · omega
    · rw [renumbered.kept v numbered, number]
  · -- the packet from outside is the only token
    rw [initial, List.mem_singleton] at member
    subst member
    by_cases alive : msg.ttl = 0
    · rw [alive] at bound ⊢
      exact Nat.le_zero.mp bound
    · obtain ⟨_, _, _, token, _, _, number, _⟩ := renumbered.read v (unnumbered v)
        ((renumbered.processed v).mpr (processed_of_read fired alive (.refl msg)))
      cases token
      exact number

omit [DecidableEq ι] in
/-- A node that acts on a copy sends one to every neighbour, or only to the
receiver if it is one of them, while the ttl of the copy is above 1. -/
theorem exists_brings_of_passed (neighbours : Neighbours net G s)
    (receiver : (s.node r).deviceId = msg.receiver) {dst : ι} {copy : SignedProtoMessage}
    {tasks : List Task} (same : msg.SamePacket copy) (elsewhere : dst ≠ r)
    (dispatched : Dispatched (s.node dst) copy sin tasks) (more : 1 < copy.ttl.toNat) {m : ι}
    (adjacent : G.Adj dst m) (only : G.Adj dst r → m = r) :
    ∃ new ∈ tasks.filterMap (InFlight.ofTask dst), Brings net m new := by
  obtain ⟨ipAddr, waits, accepted⟩ :=
    neighbours.reaches dispatched (same.receiver.trans receiver.symm) elsewhere adjacent only
  exact ⟨_, waits, accepted, UInt32.lt_iff_toNat_lt.mpr more⟩

/-- Every step keeps the state of the flooding, with a new number perhaps. -/
theorem Spread.fires (spread : Spread net G v r sin msg left c)
    (fires : net.system.Fires c token d) : ∃ left', Spread net G v r sin msg left' d := by
  obtain ⟨rest, produced, perm, tokens, fired⟩ := fired_of_fires fires
  have member : token ∈ c.tokens := fires.mem
  have same := spread.same token member
  have members : ∀ new ∈ d.tokens, new ∈ c.tokens ∨ new ∈ produced := by
    intro new found
    rw [tokens] at found
    exact (List.mem_append.mp found).imp_left fun old =>
      perm.mem_iff.mpr (List.mem_cons_of_mem _ old)
  obtain ⟨left', renumbered⟩ := spread.exists_renumbered fired same
  have kept := renumbered.kept
  refine ⟨left', spread.neighbours.fired fired, (fired.node_frame r).1.trans spread.receiver,
    fun n => (fired.node_frame n).2.2.2 ▸ spread.room n, ?_, ?_, renumbered.processed,
    .inl (renumbered.start spread member fired), renumbered.most spread member, ?_, ?_, ?_⟩
  · intro new found
    rcases members new found with old | produces
    · exact spread.same new old
    · exact fired.samePacket produces same
  · intro new found
    rcases members new found with old | produces
    · exact (spread.origin new old).mono kept
    · refine Origin.new spread.neighbours (spread.origin token member) kept fired ?_ produces
      rintro n sin copy rfl passes
      exact renumbered.number_of_passes fired same (spread.processed n).mp passes
  · intro n other numbered
    by_cases old : left n = 0
    · obtain ⟨_, copy, _, rfl, _, _, number, _⟩ := renumbered.read n old numbered
      rcases spread.origin _ member with ⟨here, _⟩ | ⟨p, adjacent, more⟩
      · exact absurd here other
      · exact ⟨p, adjacent, by rw [kept p (by omega), number, more]⟩
    · obtain ⟨p, adjacent, more⟩ := spread.first n other old
      exact ⟨p, adjacent, by rw [kept p (by omega), kept n old, more]⟩
  · intro n elsewhere numbered m adjacent only
    by_cases old : left n = 0
    · obtain ⟨_, copy, _, rfl, dispatched, rfl, number, _⟩ :=
        renumbered.read n old (by omega)
      obtain ⟨new, waits, brings⟩ := exists_brings_of_passed spread.neighbours spread.receiver
        same elsewhere dispatched (number ▸ numbered) adjacent only
      exact .inr ⟨new, tokens ▸ List.mem_append_right _ waits, brings⟩
    · rw [kept n old] at numbered
      exact (spread.sentOn n elsewhere numbered m adjacent only).fires same perm tokens fired
  · intro reached
    by_cases old : left r = 0
    · obtain ⟨_, copy, _, rfl, dispatched, _, _, logged⟩ :=
        renumbered.read r old ((renumbered.processed r).mpr reached)
      exact ⟨_, logged, rfl, (handled_iff_of_dispatched dispatched).mpr
        (spread.receiver.trans same.receiver.symm), same⟩
    · obtain ⟨entry, logged, handled⟩ := spread.submitted ((spread.processed r).mp old)
      exact ⟨entry, fired.log_subset logged, handled⟩

omit [DecidableEq ι] in
/-- When nothing is in flight any more and the receiver has not processed the
packet, the packet died out before it. -/
theorem Spread.diesOut (spread : Spread net G v r sin msg left c) (done : c.tokens = [])
    (unprocessed : ¬ Processed msg.signature c.state r) :
    DiesOut G v r msg.ttl.toNat left := by
  have settled : ∀ {m}, Settled net msg.signature c m → Processed msg.signature c.state m := by
    rintro m (processed | ⟨token, member, _⟩)
    · exact processed
    · rw [done] at member
      exact absurd member List.not_mem_nil
  have unnumbered : left r = 0 := by
    by_contra numbered
    exact unprocessed ((spread.processed r).mp numbered)
  refine ⟨?_, unnumbered, spread.most, spread.first, ?_⟩
  · rcases spread.start with number | ⟨initial, _⟩
    · exact number
    · rw [done] at initial
      cases initial
  · intro n more
    have elsewhere : n ≠ r := by
      rintro rfl
      omega
    have apart : ¬ G.Adj n r := fun near =>
      unprocessed (settled (spread.sentOn n elsewhere more r near fun _ => rfl))
    refine ⟨apart, ?_⟩
    intro m adjacent
    exact (spread.processed m).mpr
      (settled (spread.sentOn n elsewhere more m adjacent fun near => absurd near apart))

end Step

end Network

end P2PFileSync
