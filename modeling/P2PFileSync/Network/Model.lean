import P2PFileSync.Connection
import P2PFileSync.Foundations.TokenSystem
import Mathlib.Logic.Function.Basic

/-!
# A network of nodes

Each node runs `read_callback` on what arrives and `send_packet_tcp` on its
thread pool. A configuration is the state of every node with what is in flight:
tasks that wait to send a packet, and frames that were sent and not yet read.
A step runs one waiting task or delivers one frame, in any order.

`send_packet_tcp` opens a connection for each packet, so a frame is one
connection with one packet on it (`fire_task_eq_sendPacketTcp`), and the step
that delivers it is all the read events of that connection, however the bytes
are cut (`fire_frame_eq_readConnection`).

What each delivery did is kept in a log that no node reads. A handler task is
logged and does not run: a packet that a handler sends is a new packet.
-/

set_option autoImplicit false

namespace P2PFileSync

universe u

/-- What the nodes of a network see of each other: the node that accepts a
connection to an address, if one does, and the address the connections of a
node come from. -/
structure Network (ι : Type u) where
  connect : ι → IPAddress → Option ι
  sockaddr : ι → SockaddrIn

/-- A task that waits to send a packet, or a frame that was sent. -/
inductive InFlight (ι : Type u) where
  | task (owner : ι) (machinePort : UInt16) (msg : SignedProtoMessage) (ipAddr : IPAddress)
  | frame (dst : ι) (sin : SockaddrIn) (msg : SignedProtoMessage)
  deriving DecidableEq

/-- One delivery: the packet as it was read, whether it passed the ttl test and
the duplicate check, and the tasks submitted for it. -/
structure Delivery (ι : Type u) where
  dst : ι
  msg : SignedProtoMessage
  passed : Bool
  tasks : List Task
  deriving DecidableEq

/-- The state of every node, and the deliveries so far. -/
structure NetState (ι : Type u) where
  node : ι → ServerContext
  log : List (Delivery ι)

variable {ι : Type u}

namespace InFlight

/-- The packet in flight. -/
def msg : InFlight ι → SignedProtoMessage
  | .task _ _ msg _ => msg
  | .frame _ _ msg => msg

/-- The waiting form of a sending task. -/
def ofTask (owner : ι) : Task → Option (InFlight ι)
  | .sendPacketTcp machinePort msg ipAddr => some (.task owner machinePort msg ipAddr)
  | .handle _ _ => none

end InFlight

/-- The packet was submitted to the handler of the node it was delivered to. -/
def Delivery.handled (delivery : Delivery ι) : Bool :=
  delivery.tasks.any fun task =>
    match task with
    | .sendPacketTcp _ _ _ => false
    | .handle signedMsg _ => signedMsg = delivery.msg

namespace NetState

variable [DecidableEq ι]

/-- One delivery at a node: the server afterwards and the entry of the log. -/
def deliver (s : NetState ι) (server : ServerContext) (delivery : Delivery ι) : NetState ι where
  node := Function.update s.node delivery.dst server
  log := s.log ++ [delivery]

variable {s : NetState ι} {server : ServerContext} {dst n : ι} {msg : SignedProtoMessage}
  {passed : Bool} {tasks : List Task}

@[simp] theorem deliver_node_self :
    (s.deliver server ⟨dst, msg, passed, tasks⟩).node dst = server :=
  Function.update_self ..

theorem deliver_node_of_ne (other : n ≠ dst) :
    (s.deliver server ⟨dst, msg, passed, tasks⟩).node n = s.node n :=
  Function.update_of_ne other ..

/-- A delivery that leaves the server as it is changes no node. -/
@[simp] theorem deliver_node_same :
    (s.deliver (s.node dst) ⟨dst, msg, passed, tasks⟩).node = s.node :=
  Function.update_eq_self ..

end NetState

namespace Network

variable [DecidableEq ι] (net : Network ι)

/-- The steps of the network. A waiting task sends its frame if the connection
is accepted; a frame is read, unless that is undefined. -/
def system : TokenSystem (NetState ι) (InFlight ι) where
  fire s
    | .task owner machinePort msg ipAddr =>
        some (s, ((net.connect owner ipAddr).map fun dst =>
          InFlight.frame dst (net.sockaddr owner) (msg.forwarded machinePort)).toList)
    | .frame dst sin msg =>
        (readPacket (s.node dst) msg sin).map fun (server, tasks) =>
          (s.deliver server ⟨dst, msg, decide (Passes (s.node dst) msg), tasks⟩,
            tasks.filterMap (InFlight.ofTask dst))

/-- A configuration of the network. -/
abbrev Config (ι : Type u) := TokenSystem.Config (NetState ι) (InFlight ι)

/-! ## Frames and bytes -/

/-- Delivering a frame is reading the bytes of its connection, however they are
cut into read events. -/
theorem fire_frame_eq_readConnection {pb : Protobuf} (lossless : pb.Lossless) {s : NetState ι}
    {dst : ι} {sin : SockaddrIn} {msg : SignedProtoMessage} {chunks : List Bytes}
    (small : (pb.serializeSigned msg).length < Protobuf.sizeLimit)
    (split : chunks.flatten = frame pb msg) :
    net.system.fire s (.frame dst sin msg) =
      (readConnection pb sin (s.node dst) [] chunks).map fun (server, tasks) =>
        (s.deliver server ⟨dst, msg, decide (Passes (s.node dst) msg), tasks⟩,
          tasks.filterMap (InFlight.ofTask dst)) := by
  have nonempty : ([] : Bytes).length < (frame pb msg).length := by
    simp only [frame, List.length_append, encodeUint32_length, List.length_nil]
    omega
  rw [readConnection_frame lossless small nonempty split]
  rfl

/-- A task that runs puts the bytes that `send_packet_tcp` writes on one
connection. -/
theorem fire_task_eq_sendPacketTcp (pb : Protobuf) {s : NetState ι} {owner : ι}
    {machinePort : UInt16} {msg : SignedProtoMessage} {ipAddr : IPAddress} :
    (net.system.fire s (.task owner machinePort msg ipAddr)).map
        (fun result => result.2.map fun token => frame pb token.msg) =
      some (sendPacketTcp pb (fun peer => (net.connect owner peer).isSome) machinePort msg
        ipAddr).toList := by
  cases accepted : net.connect owner ipAddr with
  | none => simp only [system, sendPacketTcp, accepted, Option.map_none, Option.toList_none,
      Option.map_some, List.map_nil, Option.isSome_none, Bool.false_eq_true, if_false]
  | some dst => simp only [system, sendPacketTcp, accepted, Option.map_some, Option.toList_some,
      List.map_cons, List.map_nil, Option.isSome_some, if_true, InFlight.msg]

/-! ## What a step does -/

/-- Everything that firing a token can do. -/
inductive Fired (net : Network ι) (s : NetState ι) :
    InFlight ι → NetState ι → List (InFlight ι) → Prop where
  | sent {owner : ι} {machinePort : UInt16} {msg : SignedProtoMessage} {ipAddr : IPAddress}
      {dst : ι} (accepted : net.connect owner ipAddr = some dst) :
      Fired net s (.task owner machinePort msg ipAddr) s
        [.frame dst (net.sockaddr owner) (msg.forwarded machinePort)]
  | refused {owner : ι} {machinePort : UInt16} {msg : SignedProtoMessage} {ipAddr : IPAddress}
      (refusal : net.connect owner ipAddr = none) :
      Fired net s (.task owner machinePort msg ipAddr) s []
  | dropped {dst : ι} {sin : SockaddrIn} {msg : SignedProtoMessage}
      (drop : ¬ Passes (s.node dst) msg) :
      Fired net s (.frame dst sin msg) (s.deliver (s.node dst) ⟨dst, msg, false, []⟩) []
  | passed {dst : ι} {sin : SockaddrIn} {msg : SignedProtoMessage} {tasks : List Task}
      {packetCache : FIFOCache Bytes} (passes : Passes (s.node dst) msg)
      (inserted : (s.node dst).packetCache.isCached msg.signature = some (false, packetCache))
      (dispatched : Dispatched (s.node dst) msg sin tasks) :
      Fired net s (.frame dst sin msg)
        (s.deliver { s.node dst with packetCache := packetCache } ⟨dst, msg, true, tasks⟩)
        (tasks.filterMap (InFlight.ofTask dst))

variable {net}

theorem fired_of_fire {s t : NetState ι} {token : InFlight ι} {produced : List (InFlight ι)}
    (outcome : net.system.fire s token = some (t, produced)) : Fired net s token t produced := by
  cases token with
  | task owner machinePort msg ipAddr =>
      cases accepted : net.connect owner ipAddr with
      | some dst =>
          simp only [system, accepted, Option.map_some, Option.toList_some, Option.some.injEq,
            Prod.mk.injEq] at outcome
          obtain ⟨rfl, rfl⟩ := outcome
          exact .sent accepted
      | none =>
          simp only [system, accepted, Option.map_none, Option.toList_none, Option.some.injEq,
            Prod.mk.injEq] at outcome
          obtain ⟨rfl, rfl⟩ := outcome
          exact .refused accepted
  | frame dst sin msg =>
      obtain ⟨⟨server, tasks⟩, read, result⟩ := Option.map_eq_some_iff.mp outcome
      rcases readPacket_cases read with ⟨drop, rfl, rfl⟩ | ⟨passes, dispatched, _, inserted, rfl⟩
      · cases result
        simp only [drop, decide_false]
        exact .dropped drop
      · cases result
        simp only [passes, decide_true]
        exact .passed passes inserted dispatched

/-- A step of the network, with everything it can do. -/
theorem fired_of_fires {c d : Config ι} {token : InFlight ι}
    (fires : net.system.Fires c token d) :
    ∃ rest produced, c.tokens.Perm (token :: rest) ∧ d.tokens = rest ++ produced ∧
      Fired net c.state token d.state produced := by
  obtain ⟨rest, produced, perm, outcome, tokens⟩ := fires.elim
  exact ⟨rest, produced, perm, tokens, fired_of_fire outcome⟩

/-- A task can always run, and a frame can be read unless its packet must be
taken into a cache of size zero. -/
theorem fire_isSome {s : NetState ι} {token : InFlight ι}
    (defined : ∀ dst sin msg, token = .frame dst sin msg → Passes (s.node dst) msg →
      ¬ (s.node dst).packetCache.FrontUndefined) : (net.system.fire s token).isSome := by
  cases token with
  | task owner machinePort msg ipAddr => rfl
  | frame dst sin msg =>
      simp only [system, Option.isSome_map]
      by_contra undefined
      rw [Option.not_isSome_iff_eq_none] at undefined
      obtain ⟨passes, empty⟩ := readPacket_eq_none_iff.mp undefined
      exact defined dst sin msg rfl passes empty

/-! ## What a step leaves alone -/

section Frame

variable {s t : NetState ι} {token : InFlight ι} {produced : List (InFlight ι)}

/-- A step changes nothing of a node but the contents of its cache. -/
theorem Fired.node_frame (fired : Fired net s token t produced) (n : ι) :
    (t.node n).deviceId = (s.node n).deviceId ∧ (t.node n).port = (s.node n).port ∧
      (t.node n).routingTable = (s.node n).routingTable ∧
      (t.node n).packetCache.maxCacheSize = (s.node n).packetCache.maxCacheSize := by
  cases fired with
  | sent | refused => exact ⟨rfl, rfl, rfl, rfl⟩
  | dropped =>
      rw [NetState.deliver_node_same]
      exact ⟨rfl, rfl, rfl, rfl⟩
  | @passed dst _ _ _ _ _ inserted =>
      by_cases here : n = dst
      · subst here
        rw [NetState.deliver_node_self]
        exact ⟨rfl, rfl, rfl, (FIFOCache.of_isCached_false inserted).2.2.2⟩
      · rw [NetState.deliver_node_of_ne here]
        exact ⟨rfl, rfl, rfl, rfl⟩

/-- A step adds no signature to a cache but that of the packet it delivers. -/
theorem Fired.mem_cacheMap (fired : Fired net s token t produced) {n : ι} {id : Bytes}
    (member : id ∈ (t.node n).packetCache.cacheMap) :
    id ∈ (s.node n).packetCache.cacheMap ∨
      ∃ sin msg, token = .frame n sin msg ∧ id = msg.signature := by
  cases fired with
  | sent | refused => exact .inl member
  | dropped =>
      rw [NetState.deliver_node_same] at member
      exact .inl member
  | @passed dst sin msg _ _ _ inserted =>
      by_cases here : n = dst
      · subst here
        rw [NetState.deliver_node_self] at member
        rcases (FIFOCache.of_isCached_false inserted).2.2.1 id member with same | old
        · exact .inr ⟨sin, msg, rfl, same⟩
        · exact .inl old
      · rw [NetState.deliver_node_of_ne here] at member
        exact .inl member

/-- A task sends a frame and a frame submits tasks; the packet they carry stays
the same but for the ttl and the forwarding port. -/
theorem Fired.produced_cases (fired : Fired net s token t produced) {new : InFlight ι}
    (member : new ∈ produced) :
    (∃ owner machinePort msg ipAddr dst, token = .task owner machinePort msg ipAddr ∧
        net.connect owner ipAddr = some dst ∧
        new = .frame dst (net.sockaddr owner) (msg.forwarded machinePort)) ∨
      ∃ dst sin msg, token = .frame dst sin msg ∧ Passes (s.node dst) msg ∧
        (s.node dst).deviceId ≠ msg.receiver ∧
        ∃ entry ∈ (s.node dst).routingTable.getRoutingTable,
          new = .task dst (s.node dst).port msg entry.2.1 := by
  cases fired with
  | sent accepted => exact .inl ⟨_, _, _, _, _, rfl, accepted, List.mem_singleton.mp member⟩
  | refused | dropped => cases member
  | passed passes _ dispatched =>
      obtain ⟨task, submitted, waiting⟩ := List.mem_filterMap.mp member
      rcases dispatched.mem submitted with ⟨rfl, _⟩ | ⟨entry, listed, rfl, elsewhere⟩
      · cases waiting
      · cases waiting
        exact .inr ⟨_, _, _, rfl, passes, elsewhere, entry, listed, rfl⟩

/-- A step only adds to the log. -/
theorem Fired.log_subset (fired : Fired net s token t produced) : s.log ⊆ t.log := by
  cases fired with
  | sent | refused => exact List.Subset.refl _
  | dropped | passed => exact List.subset_append_left _ _

/-- What a token produces carries the packet of the token. -/
theorem Fired.samePacket (fired : Fired net s token t produced) {new : InFlight ι}
    (member : new ∈ produced) {msg : SignedProtoMessage} (same : msg.SamePacket token.msg) :
    msg.SamePacket new.msg := by
  rcases fired.produced_cases member with
    ⟨_, machinePort, _, _, _, rfl, _, rfl⟩ | ⟨_, _, _, rfl, _, _, _, _, rfl⟩
  · exact same.forwarded machinePort
  · exact same

theorem Fired.signature_eq (fired : Fired net s token t produced) {new : InFlight ι}
    (member : new ∈ produced) : new.msg.signature = token.msg.signature :=
  (fired.samePacket member (.refl token.msg)).signature

end Frame

/-! ## One packet among others -/

/-- The copies in flight of the packet with a signature. -/
def copies (signature : Bytes) (tokens : List (InFlight ι)) : List (InFlight ι) :=
  tokens.filter fun token => token.msg.signature = signature

/-- The deliveries that submitted the packet with a signature to a handler. -/
def submissions (signature : Bytes) (log : List (Delivery ι)) : List (Delivery ι) :=
  log.filter fun entry => entry.handled ∧ entry.msg.signature = signature

omit [DecidableEq ι] in
theorem mem_copies {signature : Bytes} {tokens : List (InFlight ι)} {token : InFlight ι} :
    token ∈ copies signature tokens ↔ token ∈ tokens ∧ token.msg.signature = signature := by
  rw [copies, List.mem_filter, decide_eq_true_iff]

omit [DecidableEq ι] in
theorem copies_cons_of_eq {signature : Bytes} {token : InFlight ι}
    (same : token.msg.signature = signature) (tokens : List (InFlight ι)) :
    copies signature (token :: tokens) = token :: copies signature tokens :=
  List.filter_cons_of_pos (decide_eq_true same)

omit [DecidableEq ι] in
theorem copies_cons_of_ne {signature : Bytes} {token : InFlight ι}
    (other : token.msg.signature ≠ signature) (tokens : List (InFlight ι)) :
    copies signature (token :: tokens) = copies signature tokens :=
  List.filter_cons_of_neg fun counts => other (of_decide_eq_true counts)

omit [DecidableEq ι] in
theorem copies_eq_nil {signature : Bytes} {tokens : List (InFlight ι)}
    (others : ∀ token ∈ tokens, token.msg.signature ≠ signature) : copies signature tokens = [] :=
  List.filter_eq_nil_iff.mpr fun token member counts =>
    others token member (of_decide_eq_true counts)

omit [DecidableEq ι] in
theorem submissions_append (signature : Bytes) (log : List (Delivery ι)) (entry : Delivery ι) :
    submissions signature (log ++ [entry]) = submissions signature log ++
      if entry.handled ∧ entry.msg.signature = signature then [entry] else [] := by
  by_cases counts : entry.handled = true ∧ entry.msg.signature = signature
  · simp only [submissions, List.filter_append, List.filter_cons, counts, decide_true,
      List.filter_nil, if_true, and_self]
  · simp only [submissions, List.filter_append, List.filter_cons, counts, decide_false,
      List.filter_nil, if_false, Bool.false_eq_true]

/-- A step of the network, as one packet sees it: it is a step of another
packet, or it replaces one copy of this packet by others. -/
theorem copies_of_fires {c d : Config ι} {token : InFlight ι} (signature : Bytes)
    (fires : net.system.Fires c token d) :
    ∃ produced, Fired net c.state token d.state produced ∧
      ((token.msg.signature ≠ signature ∧
          (copies signature d.tokens).Perm (copies signature c.tokens)) ∨
        (token.msg.signature = signature ∧
          ∃ rest, (copies signature c.tokens).Perm (token :: rest) ∧
            copies signature d.tokens = rest ++ produced)) := by
  obtain ⟨rest, produced, perm, tokens, fired⟩ := fired_of_fires fires
  refine ⟨produced, fired, ?_⟩
  have before : (copies signature c.tokens).Perm (copies signature (token :: rest)) :=
    perm.filter _
  have after : copies signature d.tokens = copies signature rest ++ copies signature produced := by
    rw [tokens, copies, List.filter_append]
    rfl
  by_cases same : token.msg.signature = signature
  · refine .inr ⟨same, copies signature rest, ?_, ?_⟩
    · rwa [copies_cons_of_eq same] at before
    · have all : copies signature produced = produced :=
        List.filter_eq_self.mpr fun new member =>
          decide_eq_true ((fired.signature_eq member).trans same)
      rw [after, all]
  · have none : copies signature produced = [] := copies_eq_nil fun new member carried =>
      same ((fired.signature_eq member).symm.trans carried)
    rw [copies_cons_of_ne same] at before
    rw [after, none, List.append_nil]
    exact .inl ⟨same, before.symm⟩

omit [DecidableEq ι] in
/-- A packet that passes is submitted to the handler exactly by its receiver. -/
theorem handled_iff_of_dispatched {server : ServerContext} {dst : ι} {sin : SockaddrIn}
    {msg : SignedProtoMessage} {passed : Bool} {tasks : List Task}
    (dispatched : Dispatched server msg sin tasks) :
    (Delivery.mk dst msg passed tasks).handled = true ↔ server.deviceId = msg.receiver := by
  constructor
  · intro handled
    obtain ⟨task, member, handles⟩ := List.any_eq_true.mp handled
    rcases dispatched.mem member with ⟨_, here⟩ | ⟨_, _, rfl, _⟩
    · exact here
    · cases handles
  · intro here
    cases dispatched with
    | handle _ => simp only [Delivery.handled, List.any_cons, decide_true, Bool.true_or]
    | unicast _ elsewhere | broadcast elsewhere => exact absurd here elsewhere

/-- A step of another packet submits nothing of this one. -/
theorem Fired.submissions_eq {s t : NetState ι} {token : InFlight ι}
    {produced : List (InFlight ι)} (fired : Fired net s token t produced) {signature : Bytes}
    (other : token.msg.signature ≠ signature) :
    submissions signature t.log = submissions signature s.log := by
  cases fired with
  | sent | refused => rfl
  | dropped _ =>
      exact (submissions_append ..).trans
        (by rw [if_neg (fun counts => other counts.2), List.append_nil])
  | passed _ _ _ =>
      exact (submissions_append ..).trans
        (by rw [if_neg (fun counts => other counts.2), List.append_nil])

/-! ## Packets from outside -/

section Surroundings

variable {PrivateKey PublicKey : Type} (pb : Protobuf) (ssl : OpenSSL PrivateKey PublicKey)
  (clientPrivKey : ι → PrivateKey)

/-- What may happen besides the steps of the network: a node sends a new packet
with `send_pkg`, a packet in flight is doubled, a routing table changes. -/
inductive Surroundings : Config ι → Config ι → Prop where
  | sendPkg {c : Config ι} (n : ι) (data : ProtoMessage) (peer : IPAddress)
      {msg : SignedProtoMessage}
      (built : P2PFileSync.sendPkg pb ssl (clientPrivKey n) (c.state.node n).port data peer =
        .ok (.sendPacketTcp (c.state.node n).port msg peer)) :
      Surroundings c ⟨c.state, c.tokens ++ [.task n (c.state.node n).port msg peer]⟩
  | duplicate {c : Config ι} {token : InFlight ι} (member : token ∈ c.tokens) :
      Surroundings c ⟨c.state, c.tokens ++ [token]⟩
  | reroute {c : Config ι} (n : ι) (routingTable : RoutingTable Bytes) :
      Surroundings c ⟨{ c.state with
        node := Function.update c.state.node n
          { c.state.node n with routingTable := routingTable } }, c.tokens⟩

end Surroundings

/-! ## Networks for the examples -/

section Examples

variable {size : ℕ} [NeZero size]

/-- Nodes on one machine: node `i` listens on port `i`. -/
def localhost (size : ℕ) [NeZero size] : Network (Fin size) where
  connect _ ipAddr :=
    if ipAddr.portNumber.toNat < size then some (Fin.ofNat size ipAddr.portNumber.toNat) else none
  sockaddr _ := loopbackSin

/-- The address node `i` listens on. -/
def addressOf (i : Fin size) : IPAddress := { loopback with portNumber := UInt16.ofNat i }

/-- The device id of node `i`. -/
def deviceIdOf (i : Fin size) : Bytes := [UInt8.ofNat i]

/-- Fresh nodes, each with a route to its neighbours. -/
def neighbourState (neighbours : Fin size → List (Fin size)) (cacheSize : ℕ) :
    NetState (Fin size) where
  node i := {
    deviceId := deviceIdOf i
    port := UInt16.ofNat i
    packetCache := .new cacheSize
    routingTable :=
      ⟨((neighbours i).map fun next => ⟨deviceIdOf next, addressOf next, 1⟩).toAList⟩ }
  log := []

/-- Ten nodes that route everything in a circle, with a cache of one. -/
def circle : NetState (Fin 10) := neighbourState (fun i => [i + 1]) 1

end Examples

end Network

end P2PFileSync
