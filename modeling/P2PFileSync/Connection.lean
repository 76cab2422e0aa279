import P2PFileSync.Packet.WireCodec
import P2PFileSync.ServerContext

/-!
# What arrives over a connection

Four results about `read_callback` and the bytes of a connection.

* `sent_handled_iff`: `send_pkg` never sets the receiver of the envelope, so
  the addressed node submits the packet to its handler only when its device id
  is the empty string.
* `malformed_ignored_iff`: a body that does not parse is processed all the
  same. It is without effect exactly when the leftover message is expired or
  its leftover signature is cached.
* `stream_handled_iff`: the callback never drains the buffer, so of the packets
  written to one connection only the first is ever acted on.
* `readConnection_frame`: a connection that carries one packet has the effect of
  reading it once, however its bytes are cut into read events.
-/

set_option autoImplicit false

namespace P2PFileSync

/-- The tasks a run of `read_callback` submits. -/
def submittedTasks (outcome : Option (ServerContext × Bytes × List Task)) : Option (List Task) :=
  outcome.map fun result => result.2.2

/-! ## A packet from `send_pkg` to the handler -/

section Envelope

variable {PrivateKey PublicKey : Type} {pb : Protobuf} {ssl : OpenSSL PrivateKey PublicKey}
  {clientPrivKey : PrivateKey} {port : UInt16} {data : ProtoMessage} {peer : IPAddress}
  {sent : SignedProtoMessage}

/-- A packet the node has not seen is submitted to the handler there, and is
neither relayed nor broadcast, exactly when the node's device id is the
receiver in the envelope. -/
theorem handled_iff_receiver {server : ServerContext} {buffer : Bytes} {sin : SockaddrIn}
    {msg : SignedProtoMessage} (front : frontPacket pb buffer = some msg)
    (passes : Passes server msg) :
    submittedTasks (readCallback pb server buffer sin) = some [.handle msg sin] ↔
      server.deviceId = msg.receiver ∧ ¬ server.packetCache.FrontUndefined := by
  rw [submittedTasks, readCallback_of_frontPacket front]
  by_cases undefined : server.packetCache.FrontUndefined
  · rw [readPacket_eq_none_iff.mpr ⟨passes, undefined⟩]
    exact iff_of_false (by simp) (fun handled => handled.2 undefined)
  · obtain ⟨packetCache, inserted⟩ := FIFOCache.isCached_of_not_mem passes.2 undefined
    obtain ⟨tasks, dispatched, outcome⟩ := readPacket_of_passes sin passes inserted
    simp only [outcome, Option.map_some, Option.some.injEq, undefined, not_false_eq_true,
      and_true]
    constructor
    · rintro rfl
      rcases dispatched.mem (List.mem_singleton_self _) with ⟨_, here⟩ | ⟨_, _, send, _⟩
      · exact here
      · cases send
    · intro here
      cases dispatched with
      | handle _ => rfl
      | unicast _ elsewhere _ _ => exact absurd here elsewhere
      | broadcast elsewhere _ => exact absurd here elsewhere

/-- **A packet sent with `send_pkg` reaches the handler of its receiver exactly
when the receiver is the empty string** and the receiver's cache has room for
it. The message is addressed to the node, but the envelope is not. -/
theorem sent_handled_iff {connects : IPAddress → Bool} {wire : Bytes} {server : ServerContext}
    {sin : SockaddrIn} (lossless : pb.Lossless)
    (built : sendPkg pb ssl clientPrivKey port data peer = .ok (.sendPacketTcp port sent peer))
    (written : sendPacketTcp pb connects port sent peer = some wire)
    (small : (pb.serializeSigned (sent.forwarded port)).length < Protobuf.sizeLimit)
    (addressed : data.receiver = server.deviceId)
    (unseen : sent.signature ∉ server.packetCache.cacheMap) :
    submittedTasks (readCallback pb server wire sin) = some [.handle (sent.forwarded port) sin] ↔
      data.receiver = [] ∧ ¬ server.packetCache.FrontUndefined := by
  obtain ⟨digest, _, envelope⟩ := sendPkg_eq_ok built
  have front := frontPacket_sent lossless small []
  rw [List.append_nil, ← sendPacketTcp_eq_some written] at front
  have alive : (sent.forwarded port).ttl ≠ 0 := by
    rw [envelope]
    exact (by decide : (10 : UInt32) - 1 ≠ 0)
  have unaddressed : (sent.forwarded port).receiver = [] := by
    rw [envelope]
    rfl
  rw [handled_iff_receiver front ⟨alive, unseen⟩, addressed, unaddressed]

/-- A ping that peer 2 sends on to nobody and does not handle, although it is
the receiver. -/
theorem addressed_packet_not_handled :
    ∃ sent wire,
      sendPkg WireCodec.protobuf .keyed 7 3324 ping loopback =
        .ok (.sendPacketTcp 3324 sent loopback) ∧
      sendPacketTcp WireCodec.protobuf (fun _ => true) 3324 sent loopback = some wire ∧
      sent.signature ∉ (ServerContext.create ping.receiver 3324 1).packetCache.cacheMap ∧
      submittedTasks (readCallback WireCodec.protobuf (.create ping.receiver 3324 1) wire
        loopbackSin) ≠ some [.handle (sent.forwarded 3324) loopbackSin] :=
  ⟨_, _, rfl, rfl, by decide, by decide⟩

theorem sent_handled_iff_ping :
    submittedTasks (readCallback WireCodec.protobuf (.create [2] 3324 1)
        (frame WireCodec.protobuf ((signedMessage (WireCodec.protobuf.serializeMessage ping)
          (7 :: WireCodec.protobuf.serializeMessage ping)).forwarded 3324)) loopbackSin) =
      some [.handle ((signedMessage (WireCodec.protobuf.serializeMessage ping)
        (7 :: WireCodec.protobuf.serializeMessage ping)).forwarded 3324) loopbackSin] ↔
      ping.receiver = [] ∧ ¬ (ServerContext.create [2] 3324 1).packetCache.FrontUndefined :=
  have built : sendPkg WireCodec.protobuf .keyed 7 3324 ping loopback = .ok _ := rfl
  have written : sendPacketTcp WireCodec.protobuf (fun _ => true) 3324 _ loopback = some _ := rfl
  sent_handled_iff WireCodec.protobuf_lossless built written (by decide) rfl (by decide)

end Envelope

/-! ## Bodies that do not parse -/

/-- The run of `read_callback` changes nothing and submits nothing. -/
def WithoutEffect (server : ServerContext)
    (outcome : Option (ServerContext × Bytes × List Task)) : Prop :=
  ∃ after buffer, outcome = some (after, buffer, []) ∧ after.packetCache = server.packetCache

/-- A packet is without effect exactly when it does not pass. -/
theorem withoutEffect_iff_not_passes {pb : Protobuf} {server : ServerContext} {buffer : Bytes}
    {sin : SockaddrIn} {msg : SignedProtoMessage} (front : frontPacket pb buffer = some msg) :
    WithoutEffect server (readCallback pb server buffer sin) ↔ ¬ Passes server msg := by
  rw [readCallback_of_frontPacket front]
  constructor
  · rintro ⟨after, rest, outcome, unchanged⟩ passes
    obtain ⟨⟨next, tasks⟩, read, same⟩ := Option.map_eq_some_iff.mp outcome
    cases same
    rcases readPacket_cases read with ⟨dropped, _, _⟩ | ⟨_, _, packetCache, inserted, rfl⟩
    · exact dropped passes
    · have cached := (FIFOCache.of_isCached_false inserted).2.1
      rw [show packetCache = server.packetCache from unchanged] at cached
      exact passes.2 cached
  · intro dropped
    rw [readPacket_of_not_passes dropped]
    exact ⟨server, buffer, rfl, rfl⟩

/-- **A malformed packet is abandoned exactly when its leftover fields say so.**
The parse failure itself is only logged. -/
theorem malformed_ignored_iff (pb : Protobuf) (server : ServerContext) (body rest : Bytes)
    (sin : SockaddrIn) (short : body.length < 2 ^ 32)
    (_malformed : (pb.parseSigned body).2 = false) :
    WithoutEffect server
        (readCallback pb server (encodeUint32 (UInt32.ofNat body.length) ++ (body ++ rest)) sin) ↔
      (pb.parseSigned body).1.ttl = 0 ∨
        (pb.parseSigned body).1.signature ∈ server.packetCache.cacheMap := by
  rw [withoutEffect_iff_not_passes (frontPacket_frame short rest), Passes, not_and_or,
    not_not, not_not]

/-- A packet for peer 2 followed by a field without a value. -/
def malformedBody : Bytes := WireCodec.protobuf.serializeSigned (packet [9]) ++ [32]

/-- The truncated body does not parse, and peer 2 handles what was parsed. -/
theorem malformed_packet_handled :
    (WireCodec.protobuf.parseSigned malformedBody).2 = false ∧
      ¬ WithoutEffect (.create [2] 3324 1) (readCallback WireCodec.protobuf (.create [2] 3324 1)
        (encodeUint32 (UInt32.ofNat malformedBody.length) ++ (malformedBody ++ []))
        loopbackSin) := by
  refine ⟨by decide, ?_⟩
  rw [withoutEffect_iff_not_passes (frontPacket_frame (by decide) [])]
  decide

theorem malformed_ignored_iff_truncated :
    WithoutEffect (.create [2] 3324 1) (readCallback WireCodec.protobuf (.create [2] 3324 1)
        (encodeUint32 (UInt32.ofNat malformedBody.length) ++ (malformedBody ++ [])) loopbackSin) ↔
      (WireCodec.protobuf.parseSigned malformedBody).1.ttl = 0 ∨
        (WireCodec.protobuf.parseSigned malformedBody).1.signature ∈
          (ServerContext.create [2] 3324 1).packetCache.cacheMap :=
  malformed_ignored_iff WireCodec.protobuf (.create [2] 3324 1) malformedBody [] loopbackSin
    (by decide) (by decide)

/-! ## Several packets on one connection -/

/-- The read events of one connection, from the bytes still in its buffer: each
packet acted on, that is, handled, relayed or broadcast, with the tasks
submitted for it. -/
def readEvents (pb : Protobuf) (sin : SockaddrIn) (server : ServerContext) (buffer : Bytes) :
    List Bytes → Option (List (SignedProtoMessage × List Task))
  | [] => some []
  | chunk :: chunks =>
      match readCallback pb server (buffer ++ chunk) sin with
      | none => none
      | some (after, buffer', tasks) =>
          match frontPacket pb (buffer ++ chunk) with
          | none => readEvents pb sin after buffer' chunks
          | some msg =>
              if Passes server msg then
                (readEvents pb sin after buffer' chunks).map fun acts => (msg, tasks) :: acts
              else readEvents pb sin after buffer' chunks

/-- Packets written back to back. -/
def stream (pb : Protobuf) (packets : List SignedProtoMessage) : Bytes :=
  packets.flatMap (frame pb)

/-- The read events act on each packet exactly once, in the order sent. -/
def ActsInOrder (pb : Protobuf) (sin : SockaddrIn) (server : ServerContext) (chunks : List Bytes)
    (packets : List SignedProtoMessage) : Prop :=
  ∃ acts, readEvents pb sin server [] chunks = some acts ∧ acts.map Prod.fst = packets

section Stream

variable {pb : Protobuf} {sin : SockaddrIn} {server : ServerContext} {msg : SignedProtoMessage}

/-- While a prefix of the stream is in the buffer, the front packet is the
first one of the stream, or none before it is complete. -/
theorem frontPacket_stream (lossless : pb.Lossless)
    (small : (pb.serializeSigned msg).length < Protobuf.sizeLimit) {buffer more rest : Bytes}
    (begins : buffer ++ more = frame pb msg ++ rest) :
    frontPacket pb buffer =
      if buffer.length < (frame pb msg).length then none else some msg := by
  have short : (pb.serializeSigned msg).length < 2 ^ 32 := Nat.lt_trans small (by decide)
  rcases List.append_eq_append_iff.mp begins with ⟨missing, whole, _⟩ | ⟨extra, rfl, _⟩
  · by_cases complete : missing = []
    · rw [complete, List.append_nil] at whole
      rw [← whole, if_neg (Nat.lt_irrefl _)]
      have front := frontPacket_sent lossless small []
      rwa [List.append_nil] at front
    · have positive := List.length_pos_iff.mpr complete
      have inside : buffer.length < (frame pb msg).length := by
        rw [whole, List.length_append]
        omega
      rw [if_pos inside]
      refine frontPacket_incomplete short whole.symm ?_
      simpa only [frame, List.length_append, encodeUint32_length] using inside
  · rw [if_neg (by rw [List.length_append]; omega)]
    exact frontPacket_sent lossless small extra

/-- Once the front packet is cached, nothing more happens on the connection. -/
theorem readEvents_cached (lossless : pb.Lossless)
    (small : (pb.serializeSigned msg).length < Protobuf.sizeLimit)
    (cached : msg.signature ∈ server.packetCache.cacheMap) {chunks : List Bytes}
    (extra : Bytes) :
    readEvents pb sin server (frame pb msg ++ extra) chunks = some [] := by
  have dropped : ¬ Passes server msg := fun passes => passes.2 cached
  induction chunks generalizing extra with
  | nil => rfl
  | cons chunk chunks ih =>
      have front : frontPacket pb (frame pb msg ++ extra ++ chunk) = some msg := by
        rw [List.append_assoc]
        exact frontPacket_sent lossless small _
      simp only [readEvents, readCallback_of_frontPacket front, readPacket_of_not_passes dropped,
        Option.map_some, front, if_neg dropped]
      rw [List.append_assoc]
      exact ih _

/-- Before the front packet is complete nothing happens; when it is, it is
acted on, and nothing else ever is. -/
theorem readEvents_stream (sin : SockaddrIn) (lossless : pb.Lossless)
    (small : (pb.serializeSigned msg).length < Protobuf.sizeLimit) (passes : Passes server msg)
    {buffer rest : Bytes} {chunks : List Bytes} (inside : buffer.length < (frame pb msg).length)
    (begins : buffer ++ chunks.flatten = frame pb msg ++ rest) :
    (server.packetCache.FrontUndefined → readEvents pb sin server buffer chunks = none) ∧
      (¬ server.packetCache.FrontUndefined →
        ∃ tasks, readEvents pb sin server buffer chunks = some [(msg, tasks)]) := by
  induction chunks generalizing buffer with
  | nil =>
      have length := congrArg List.length begins
      simp only [List.flatten_nil, List.append_nil, List.length_append] at length
      omega
  | cons chunk chunks ih =>
      rw [List.flatten_cons, ← List.append_assoc] at begins
      have front := frontPacket_stream lossless small begins
      by_cases waiting : (buffer ++ chunk).length < (frame pb msg).length
      · rw [if_pos waiting] at front
        simp only [readEvents, readCallback, front]
        exact ih waiting begins
      · rw [if_neg waiting] at front
        simp only [readEvents, readCallback_of_frontPacket front, front, if_pos passes]
        constructor
        · intro undefined
          rw [readPacket_eq_none_iff.mpr ⟨passes, undefined⟩, Option.map_none]
        · intro defined
          obtain ⟨packetCache, inserted⟩ := FIFOCache.isCached_of_not_mem passes.2 defined
          obtain ⟨tasks, _, outcome⟩ := readPacket_of_passes sin passes inserted
          obtain ⟨extra, complete⟩ : ∃ extra, buffer ++ chunk = frame pb msg ++ extra := by
            rcases List.append_eq_append_iff.mp begins with ⟨missing, whole, _⟩ | ⟨extra, whole, _⟩
            · have none_missing : missing = [] := by
                rw [← List.length_eq_zero_iff]
                simp only [whole, List.length_append] at waiting
                omega
              exact ⟨[], by rw [whole, none_missing, List.append_nil, List.append_nil]⟩
            · exact ⟨extra, whole⟩
          refine ⟨tasks, ?_⟩
          have cached := (FIFOCache.of_isCached_false inserted).2.1
          simp only [outcome, Option.map_some, complete]
          rw [readEvents_cached lossless small cached extra, Option.map_some]

/-- On a connection that carries nothing, nothing happens. -/
theorem readEvents_nil {chunks : List Bytes} (empty : chunks.flatten = []) :
    readEvents pb sin server [] chunks = some [] := by
  induction chunks with
  | nil => rfl
  | cons chunk chunks ih =>
      rw [List.flatten_cons, List.append_eq_nil_iff] at empty
      have front : frontPacket pb ([] ++ chunk) = none := by
        rw [empty.1]
        rfl
      simp only [readEvents, readCallback, front]
      rw [empty.1]
      exact ih empty.2

end Stream

/-- **Only the first packet of a connection is acted on.** However the stream is
cut into read events, the callback acts on each packet once and in order
exactly when there is at most one, and the cache has room for it. -/
theorem stream_handled_iff {pb : Protobuf} {sin : SockaddrIn} {server : ServerContext}
    {packets : List SignedProtoMessage} {chunks : List Bytes} (lossless : pb.Lossless)
    (small : ∀ msg ∈ packets, (pb.serializeSigned msg).length < Protobuf.sizeLimit)
    (alive : ∀ msg ∈ packets, msg.ttl ≠ 0)
    (unseen : ∀ msg ∈ packets, msg.signature ∉ server.packetCache.cacheMap)
    (split : chunks.flatten = stream pb packets) :
    ActsInOrder pb sin server chunks packets ↔
      packets = [] ∨ packets.length = 1 ∧ ¬ server.packetCache.FrontUndefined := by
  cases packets with
  | nil => exact iff_of_true ⟨[], readEvents_nil split, rfl⟩ (.inl rfl)
  | cons msg packets =>
      have passes : Passes server msg :=
        ⟨alive msg (List.mem_cons_self ..), unseen msg (List.mem_cons_self ..)⟩
      have nonempty : ([] : Bytes).length < (frame pb msg).length := by
        simp only [frame, List.length_append, encodeUint32_length, List.length_nil]
        omega
      have acts := readEvents_stream sin lossless (small msg (List.mem_cons_self ..)) passes
        nonempty split
      by_cases undefined : server.packetCache.FrontUndefined
      · refine iff_of_false ?_ (by simp [undefined])
        rintro ⟨_, run, _⟩
        rw [acts.1 undefined] at run
        cases run
      · obtain ⟨tasks, run⟩ := acts.2 undefined
        simp only [ActsInOrder, run, Option.some.injEq, exists_eq_left', List.map_cons,
          List.map_nil, List.cons.injEq, true_and, reduceCtorEq, false_or, List.length_cons,
          Nat.add_eq_right, List.length_eq_zero_iff, undefined, not_false_eq_true, and_true]
        exact eq_comm

/-- Two packets for peer 2 that arrive together: the second is never acted
on. -/
theorem second_packet_ignored :
    ¬ ActsInOrder WireCodec.protobuf loopbackSin (.create [2] 3324 2)
      [stream WireCodec.protobuf [packet [8], packet [9]], []] [packet [8], packet [9]] := by
  rintro ⟨acts, run, order⟩
  have acted : (readEvents WireCodec.protobuf loopbackSin (.create [2] 3324 2) []
      [stream WireCodec.protobuf [packet [8], packet [9]], []]).map (List.map Prod.fst) =
        some [packet [8]] := by decide
  rw [run, Option.map_some, order] at acted
  exact absurd acted (by decide)

theorem stream_handled_iff_two :
    ActsInOrder WireCodec.protobuf loopbackSin (.create [2] 3324 2)
        [stream WireCodec.protobuf [packet [8], packet [9]], []] [packet [8], packet [9]] ↔
      [packet [8], packet [9]] = [] ∨ [packet [8], packet [9]].length = 1 ∧
        ¬ (ServerContext.create [2] 3324 2).packetCache.FrontUndefined :=
  stream_handled_iff WireCodec.protobuf_lossless (by decide) (by decide) (by decide) (by decide)

/-! ## One packet on one connection -/

/-- All the read events of one connection: the server afterwards and all tasks
submitted. -/
def readConnection (pb : Protobuf) (sin : SockaddrIn) (server : ServerContext) (buffer : Bytes) :
    List Bytes → Option (ServerContext × List Task)
  | [] => some (server, [])
  | chunk :: chunks =>
      match readCallback pb server (buffer ++ chunk) sin with
      | none => none
      | some (after, buffer', tasks) =>
          (readConnection pb sin after buffer' chunks).map fun (last, more) => (last, tasks ++ more)

section OnePacket

variable {pb : Protobuf} {sin : SockaddrIn} {server : ServerContext} {msg : SignedProtoMessage}

/-- A front packet that does not pass has no effect, however often it is read. -/
theorem readConnection_dropped (lossless : pb.Lossless)
    (small : (pb.serializeSigned msg).length < Protobuf.sizeLimit) (dropped : ¬ Passes server msg)
    {chunks : List Bytes} (extra : Bytes) :
    readConnection pb sin server (frame pb msg ++ extra) chunks = some (server, []) := by
  induction chunks generalizing extra with
  | nil => rfl
  | cons chunk chunks ih =>
      have front : frontPacket pb (frame pb msg ++ extra ++ chunk) = some msg := by
        rw [List.append_assoc]
        exact frontPacket_sent lossless small _
      simp only [readConnection, readCallback_of_frontPacket front,
        readPacket_of_not_passes dropped, Option.map_some]
      rw [List.append_assoc, ih, Option.map_some, List.nil_append]

/-- However the bytes of one packet are cut into read events, the connection has
the effect of reading the packet once. -/
theorem readConnection_frame (lossless : pb.Lossless)
    (small : (pb.serializeSigned msg).length < Protobuf.sizeLimit) {buffer : Bytes}
    {chunks : List Bytes} (inside : buffer.length < (frame pb msg).length)
    (split : buffer ++ chunks.flatten = frame pb msg) :
    readConnection pb sin server buffer chunks = readPacket server msg sin := by
  induction chunks generalizing buffer with
  | nil =>
      rw [List.flatten_nil, List.append_nil] at split
      exact absurd (congrArg List.length split) (Nat.ne_of_lt inside)
  | cons chunk chunks ih =>
      rw [List.flatten_cons, ← List.append_assoc] at split
      have front := frontPacket_stream lossless small
        (show buffer ++ chunk ++ chunks.flatten = frame pb msg ++ [] by
          rw [split, List.append_nil])
      by_cases waiting : (buffer ++ chunk).length < (frame pb msg).length
      · rw [if_pos waiting] at front
        simp only [readConnection, readCallback, front]
        rw [ih waiting split]
        cases readPacket server msg sin with
        | none => rfl
        | some result => rfl
      · rw [if_neg waiting] at front
        have complete : buffer ++ chunk = frame pb msg ++ [] := by
          have length := congrArg List.length split
          rw [List.length_append] at length
          have rest : chunks.flatten = [] := List.length_eq_zero_iff.mp (by omega)
          rw [← split, rest, List.append_nil, List.append_nil]
        simp only [readConnection, readCallback_of_frontPacket front]
        cases read : readPacket server msg sin with
        | none => rfl
        | some result =>
            obtain ⟨after, tasks⟩ := result
            simp only [Option.map_some]
            rw [complete, readConnection_dropped lossless small (not_passes_of_readPacket read),
              Option.map_some, List.append_nil]

end OnePacket

end P2PFileSync
