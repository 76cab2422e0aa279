import P2PFileSync.DataStruct.FIFOCache
import P2PFileSync.OpenSSL
import P2PFileSync.Packet.Tasks

/-!
# The packet server

`P2PServerContext::send_pkg` signs a message and submits the task that sends
it. `P2PServerContext::read_callback` runs on the input buffer of a connection
whenever bytes arrive: it waits for a complete packet, drops expired and
already handled packets, relays a packet for another node and submits a packet
for this node to the handler. It never removes anything from the buffer.
-/

set_option autoImplicit false

namespace P2PFileSync

/-- The parts of `P2PServerContext` that `read_callback` reads and writes. -/
structure ServerContext where
  deviceId : Bytes
  port : UInt16
  packetCache : FIFOCache Bytes
  routingTable : RoutingTable Bytes

/-- The state the constructor leaves: an unused cache and no routes. -/
def ServerContext.create (deviceId : Bytes) (port : UInt16) (packetCacheSize : ℕ) :
    ServerContext where
  deviceId := deviceId
  port := port
  packetCache := .new packetCacheSize
  routingTable := ⟨∅⟩

/-! ## Sending -/

section SendPkg

variable {PrivateKey PublicKey : Type}

/-- The envelope `send_pkg` builds around a signed message. It sets neither the
sender nor the receiver. -/
def signedMessage (rawPacket digest : Bytes) : SignedProtoMessage where
  ttl := 10
  signature := digest
  signAlgorithm := .SHA_256
  signedPayload := rawPacket

/-- `send_pkg`: the task it submits, unless signing fails. -/
def sendPkg (pb : Protobuf) (ssl : OpenSSL PrivateKey PublicKey) (clientPrivKey : PrivateKey)
    (port : UInt16) (data : ProtoMessage) (peer : IPAddress) : Except SignError Task :=
  match ssl.digestSign clientPrivKey (pb.serializeMessage data) with
  | .error failure => .error failure
  | .ok digest =>
      .ok (.sendPacketTcp port (signedMessage (pb.serializeMessage data) digest) peer)

/-- The envelope of a sent packet. -/
theorem sendPkg_eq_ok {pb : Protobuf} {ssl : OpenSSL PrivateKey PublicKey}
    {clientPrivKey : PrivateKey} {port : UInt16} {data : ProtoMessage} {peer : IPAddress}
    {sent : SignedProtoMessage}
    (built : sendPkg pb ssl clientPrivKey port data peer = .ok (.sendPacketTcp port sent peer)) :
    ∃ digest, ssl.digestSign clientPrivKey (pb.serializeMessage data) = .ok digest ∧
      sent = signedMessage (pb.serializeMessage data) digest := by
  unfold sendPkg at built
  split at built
  · cases built
  · rename_i digest signed
    cases built
    exact ⟨digest, signed, rfl⟩

end SendPkg

/-! ## Receiving -/

/-- `read_callback` from the ttl test on: the server afterwards and the tasks
submitted, or `none` where the behaviour is undefined. -/
def readPacket (server : ServerContext) (signedMsg : SignedProtoMessage) (sin : SockaddrIn) :
    Option (ServerContext × List Task) :=
  if signedMsg.ttl = 0 then some (server, [])
  else
    match server.packetCache.isCached signedMsg.signature with
    | none => none
    | some (true, packetCache) => some ({ server with packetCache := packetCache }, [])
    | some (false, packetCache) =>
        if server.deviceId ≠ signedMsg.receiver then
          if 1 < signedMsg.ttl ∧ server.routingTable.canDelivered signedMsg.receiver = true then
            match server.routingTable.getNextPeer signedMsg.receiver with
            | none => none
            | some peer =>
                some ({ server with packetCache := packetCache },
                  [.sendPacketTcp server.port signedMsg peer])
          else
            some ({ server with packetCache := packetCache },
              server.routingTable.getRoutingTable.map fun entry =>
                .sendPacketTcp server.port signedMsg entry.2.1)
        else some ({ server with packetCache := packetCache }, [.handle signedMsg sin])

/-- The packet at the front of a buffer, once it has arrived completely. A
parse failure is logged and the message is used as it is. -/
def frontPacket (pb : Protobuf) (buffer : Bytes) : Option SignedProtoMessage :=
  match decodeUint32 buffer with
  | none => none
  | some packetLen =>
      if buffer.length - 4 < packetLen.toNat then none
      else some (pb.parseSigned ((buffer.drop 4).take packetLen.toNat)).1

/-- `read_callback`: the server and the input buffer afterwards and the tasks
submitted, or `none` where the behaviour is undefined. -/
def readCallback (pb : Protobuf) (server : ServerContext) (buffer : Bytes) (sin : SockaddrIn) :
    Option (ServerContext × Bytes × List Task) :=
  match frontPacket pb buffer with
  | none => some (server, buffer, [])
  | some signedMsg =>
      (readPacket server signedMsg sin).map fun (server, tasks) => (server, buffer, tasks)

theorem readCallback_of_frontPacket {pb : Protobuf} {server : ServerContext} {buffer : Bytes}
    {sin : SockaddrIn} {msg : SignedProtoMessage} (front : frontPacket pb buffer = some msg) :
    readCallback pb server buffer sin =
      (readPacket server msg sin).map fun (server, tasks) => (server, buffer, tasks) := by
  rw [readCallback, front]

/-! ## What one packet does -/

/-- The packet has not expired and its signature is not in the duplicate
cache. -/
def Passes (server : ServerContext) (signedMsg : SignedProtoMessage) : Prop :=
  signedMsg.ttl ≠ 0 ∧ signedMsg.signature ∉ server.packetCache.cacheMap

instance (server : ServerContext) (signedMsg : SignedProtoMessage) :
    Decidable (Passes server signedMsg) := inferInstanceAs (Decidable (_ ∧ _))

/-- The tasks submitted for a packet that passes: one for the handler of its
receiver, one for the next hop on a route, or one for every entry of the
routing table. -/
inductive Dispatched (server : ServerContext) (signedMsg : SignedProtoMessage)
    (sin : SockaddrIn) : List Task → Prop where
  | handle (here : server.deviceId = signedMsg.receiver) :
      Dispatched server signedMsg sin [.handle signedMsg sin]
  | unicast (peer : IPAddress) (elsewhere : server.deviceId ≠ signedMsg.receiver)
      (alive : 1 < signedMsg.ttl)
      (route : server.routingTable.getNextPeer signedMsg.receiver = some peer) :
      Dispatched server signedMsg sin [.sendPacketTcp server.port signedMsg peer]
  | broadcast (elsewhere : server.deviceId ≠ signedMsg.receiver)
      (unrouted : 1 < signedMsg.ttl →
        server.routingTable.getNextPeer signedMsg.receiver = none) :
      Dispatched server signedMsg sin
        (server.routingTable.getRoutingTable.map fun entry =>
          .sendPacketTcp server.port signedMsg entry.2.1)

variable {server : ServerContext} {signedMsg : SignedProtoMessage} {sin : SockaddrIn}

/-- A packet that does not pass changes nothing. -/
theorem readPacket_of_not_passes (dropped : ¬ Passes server signedMsg) :
    readPacket server signedMsg sin = some (server, []) := by
  by_cases expired : signedMsg.ttl = 0
  · rw [readPacket, if_pos expired]
  · have cached : signedMsg.signature ∈ server.packetCache.cacheMap := by
      by_contra missing
      exact dropped ⟨expired, missing⟩
    rw [readPacket, if_neg expired, FIFOCache.isCached_of_mem cached]

/-- A packet that passes is taken into the cache and dispatched. -/
theorem readPacket_of_passes (sin : SockaddrIn) (passes : Passes server signedMsg)
    {packetCache : FIFOCache Bytes}
    (inserted : server.packetCache.isCached signedMsg.signature = some (false, packetCache)) :
    ∃ tasks, Dispatched server signedMsg sin tasks ∧
      readPacket server signedMsg sin =
        some ({ server with packetCache := packetCache }, tasks) := by
  simp only [readPacket, if_neg passes.1, inserted]
  by_cases here : server.deviceId = signedMsg.receiver
  · exact ⟨_, .handle here, by simp only [here, ne_eq, not_true_eq_false, if_false]⟩
  · simp only [ne_eq, here, not_false_eq_true, if_true]
    by_cases routed : 1 < signedMsg.ttl ∧
        server.routingTable.canDelivered signedMsg.receiver = true
    · obtain ⟨peer, route⟩ := RoutingTable.canDelivered_eq_true_iff.mp routed.2
      exact ⟨_, .unicast peer here routed.1 route, by simp only [if_pos routed, route]⟩
    · refine ⟨_, .broadcast here ?_, by rw [if_neg routed]⟩
      intro alive
      cases route : server.routingTable.getNextPeer signedMsg.receiver with
      | none => rfl
      | some peer =>
          exact absurd ⟨alive, RoutingTable.canDelivered_eq_true_iff.mpr ⟨peer, route⟩⟩ routed

/-- Everything one packet can do. -/
theorem readPacket_cases {after : ServerContext} {tasks : List Task}
    (read : readPacket server signedMsg sin = some (after, tasks)) :
    (¬ Passes server signedMsg ∧ after = server ∧ tasks = []) ∨
      (Passes server signedMsg ∧ Dispatched server signedMsg sin tasks ∧
        ∃ packetCache,
          server.packetCache.isCached signedMsg.signature = some (false, packetCache) ∧
          after = { server with packetCache := packetCache }) := by
  by_cases passes : Passes server signedMsg
  · cases answer : server.packetCache.isCached signedMsg.signature with
    | none =>
        rw [readPacket, if_neg passes.1, answer] at read
        cases read
    | some result =>
        obtain ⟨cached, packetCache⟩ := result
        cases cached with
        | true => exact absurd (FIFOCache.eq_of_isCached_true answer).1 passes.2
        | false =>
            obtain ⟨_, dispatched, outcome⟩ := readPacket_of_passes sin passes answer
            rw [outcome] at read
            cases read
            exact .inr ⟨passes, dispatched, packetCache, rfl, rfl⟩
  · rw [readPacket_of_not_passes passes] at read
    cases read
    exact .inl ⟨passes, rfl, rfl⟩

/-- The behaviour is undefined only when a packet must be taken into a cache of
size zero. -/
theorem readPacket_eq_none_iff :
    readPacket server signedMsg sin = none ↔
      Passes server signedMsg ∧ server.packetCache.FrontUndefined := by
  constructor
  · intro undefined
    by_cases passes : Passes server signedMsg
    · refine ⟨passes, ?_⟩
      by_contra defined
      obtain ⟨packetCache, inserted⟩ := FIFOCache.isCached_of_not_mem passes.2 defined
      obtain ⟨_, _, outcome⟩ := readPacket_of_passes sin passes inserted
      rw [outcome] at undefined
      cases undefined
    · rw [readPacket_of_not_passes passes] at undefined
      cases undefined
  · rintro ⟨passes, undefined⟩
    rw [readPacket, if_neg passes.1, FIFOCache.isCached_eq_none_iff.mpr ⟨passes.2, undefined⟩]

/-- A packet that was read does not pass a second time. -/
theorem not_passes_of_readPacket {after : ServerContext} {tasks : List Task}
    (read : readPacket server signedMsg sin = some (after, tasks)) : ¬ Passes after signedMsg := by
  rcases readPacket_cases read with ⟨dropped, rfl, _⟩ | ⟨_, _, _, inserted, rfl⟩
  · exact dropped
  · exact fun passes => passes.2 (FIFOCache.of_isCached_false inserted).2.1

/-- Every task submitted for a packet carries the packet unchanged. -/
theorem Dispatched.mem {tasks : List Task} (dispatched : Dispatched server signedMsg sin tasks)
    {task : Task} (member : task ∈ tasks) :
    (task = .handle signedMsg sin ∧ server.deviceId = signedMsg.receiver) ∨
      ∃ entry ∈ server.routingTable.getRoutingTable,
        task = .sendPacketTcp server.port signedMsg entry.2.1 ∧
          server.deviceId ≠ signedMsg.receiver := by
  cases dispatched with
  | handle here => exact .inl ⟨List.mem_singleton.mp member, here⟩
  | unicast peer elsewhere _ route =>
      obtain ⟨entry, listed, _, rfl⟩ := RoutingTable.exists_entry_of_getNextPeer route
      exact .inr ⟨entry, listed, List.mem_singleton.mp member, elsewhere⟩
  | broadcast elsewhere _ =>
      obtain ⟨entry, listed, rfl⟩ := List.mem_map.mp member
      exact .inr ⟨entry, listed, rfl, elsewhere⟩

/-! ## Frames in the buffer -/

/-- The body of a complete frame is parsed, whatever follows the frame. -/
theorem frontPacket_frame {pb : Protobuf} {body : Bytes} (short : body.length < 2 ^ 32)
    (rest : Bytes) :
    frontPacket pb (encodeUint32 (UInt32.ofNat body.length) ++ (body ++ rest)) =
      some (pb.parseSigned body).1 := by
  have length : (UInt32.ofNat body.length).toNat = body.length := by
    rw [UInt32.toNat_ofNat']
    exact Nat.mod_eq_of_lt short
  have arrived : ¬ (encodeUint32 (UInt32.ofNat body.length) ++ (body ++ rest)).length - 4 <
      body.length := by
    simp only [List.length_append, encodeUint32_length]
    omega
  have content : (encodeUint32 (UInt32.ofNat body.length) ++ (body ++ rest)).drop 4 =
      body ++ rest := List.drop_left' (encodeUint32_length _)
  simp only [frontPacket, decodeUint32_encodeUint32, length, if_neg arrived, content,
    List.take_left]

/-- A buffer that ends inside the frame holds no complete packet yet. -/
theorem frontPacket_incomplete {pb : Protobuf} {body buffer more : Bytes}
    (short : body.length < 2 ^ 32)
    (begins : buffer ++ more = encodeUint32 (UInt32.ofNat body.length) ++ body)
    (inside : buffer.length < 4 + body.length) : frontPacket pb buffer = none := by
  have length : (UInt32.ofNat body.length).toNat = body.length := by
    rw [UInt32.toNat_ofNat']
    exact Nat.mod_eq_of_lt short
  by_cases few : buffer.length < 4
  · rw [frontPacket, decodeUint32_eq_none few]
  · obtain ⟨read, rfl⟩ : ∃ read, buffer = encodeUint32 (UInt32.ofNat body.length) ++ read := by
      have whole : (buffer ++ more).take 4 = buffer.take 4 :=
        List.take_append_of_le_length (Nat.le_of_not_lt few)
      rw [begins, List.take_left' (encodeUint32_length _)] at whole
      exact ⟨buffer.drop 4, by rw [whole, List.take_append_drop]⟩
    have waiting : (encodeUint32 (UInt32.ofNat body.length) ++ read).length - 4 < body.length := by
      simp only [List.length_append, encodeUint32_length] at inside ⊢
      omega
    simp only [frontPacket, decodeUint32_encodeUint32, length, if_pos waiting]

/-- The packet that `send_packet_tcp` wrote is read back. -/
theorem frontPacket_sent {pb : Protobuf} (lossless : pb.Lossless) {msg : SignedProtoMessage}
    (small : (pb.serializeSigned msg).length < Protobuf.sizeLimit) (rest : Bytes) :
    frontPacket pb (frame pb msg ++ rest) = some msg := by
  have short : (pb.serializeSigned msg).length < 2 ^ 32 := Nat.lt_trans small (by decide)
  rw [frame, List.append_assoc, frontPacket_frame short, lossless.signed msg small]

end P2PFileSync
