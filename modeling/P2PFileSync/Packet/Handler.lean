import P2PFileSync.DataStruct.InstancePool
import P2PFileSync.Packet.WireCodec
import P2PFileSync.PeerSession
import P2PFileSync.ServerContext

/-!
# Handling a packet

`PacketHandler::handle` parses the signed payload. A hello message goes to its
own handler. For any other message the session of the sender checks the
signature before the message is looked at; no type has a handler yet.

`send_pkg` signs the whole serialised message, and `handle` checks the
signature against the serialised payload field alone. The two byte strings
never agree (`sent_rejected`).
-/

set_option autoImplicit false

namespace P2PFileSync

variable {PrivateKey PublicKey : Type}

/-- What `handle` did with a packet. -/
inductive HandleOutcome where
  /-- The message was passed on to the handler of hello messages. -/
  | hello (protoMsg : ProtoMessage) (incomingConnection : SockaddrIn)
  | peerNotFound (sender : Bytes)
  /-- The signature was accepted; the type has no handler. -/
  | unknownPacketType (packetType : ProtoPayloadType)
  | verifyFailed (sender : Bytes)
  deriving DecidableEq, Repr

/-- The byte string `handle` passes to `verify`. -/
def verifiedData (pb : Protobuf) (signedMsg : SignedProtoMessage) : Bytes :=
  pb.serializeAny (pb.parseMessage signedMsg.signedPayload).1.getPayload

/-- `PacketHandler::handle`: what it did, and the peer pool afterwards; `none`
where the session of the sender is used in an undefined way. -/
def handle (pb : Protobuf) (ssl : OpenSSL PrivateKey PublicKey)
    (peerPool : InstancePool Bytes (PeerSession PublicKey)) (signedMsg : SignedProtoMessage)
    (incomingConnection : SockaddrIn) :
    Option (HandleOutcome × InstancePool Bytes (PeerSession PublicKey)) :=
  let protoMsg := (pb.parseMessage signedMsg.signedPayload).1
  if protoMsg.packetType = .HELLO then some (.hello protoMsg incomingConnection, peerPool)
  else
    match peerPool.getInstance protoMsg.sender with
    | none => some (.peerNotFound protoMsg.sender, peerPool)
    | some checker =>
        match checker.verify ssl (verifiedData pb signedMsg) signedMsg.signature
            signedMsg.signAlgorithm with
        | none => none
        | some (true, checker) =>
            some (.unknownPacketType protoMsg.packetType,
              peerPool.setInstance protoMsg.sender checker)
        | some (false, checker) =>
            some (.verifyFailed protoMsg.sender, peerPool.setInstance protoMsg.sender checker)

section SendAndHandle

variable {pb : Protobuf} {ssl : OpenSSL PrivateKey PublicKey} {data : ProtoMessage}

/-- The payload of a message is never the whole message. -/
theorem verifiedData_ne_signed (lossless : pb.Lossless) (layout : pb.Layout)
    {received : SignedProtoMessage}
    (small : (pb.serializeMessage data).length < Protobuf.sizeLimit)
    (carries : received.signedPayload = pb.serializeMessage data) (different : data ≠ {}) :
    verifiedData pb received ≠ pb.serializeMessage data := by
  intro same
  have shorter := Protobuf.serializeAny_length_lt lossless layout different
  rw [verifiedData, carries, lossless.message data small] at same
  rw [same] at shorter
  exact Nat.lt_irrefl _ shorter

/-- The first signature a session checks is judged on the data alone. -/
theorem handle_fresh {key : PublicKey} {peerPool : InstancePool Bytes (PeerSession PublicKey)}
    {received : SignedProtoMessage} {sin : SockaddrIn} (lossless : pb.Lossless)
    (small : (pb.serializeMessage data).length < Protobuf.sizeLimit)
    (carries : received.signedPayload = pb.serializeMessage data)
    (nonHello : data.packetType ≠ .HELLO)
    (known : peerPool.getInstance data.sender = some ⟨key, none⟩)
    (rejects : ssl.verifies key (verifiedData pb received) received.signature = false) :
    ∃ pool, handle pb ssl peerPool received sin = some (.verifyFailed data.sender, pool) := by
  have parsed : (pb.parseMessage received.signedPayload).1 = data := by
    rw [carries, lossless.message data small]
  have answer : PeerSession.verifyFresh ssl key
      ⟨verifiedData pb received, received.signature, received.signAlgorithm⟩ = _ :=
    PeerSession.verifyFresh_eq key _
  obtain ⟨⟨valid, checker⟩, verdict, same⟩ := Option.map_eq_some_iff.mp answer
  have refused : valid = false := by
    rw [show valid = _ from same, PeerSession.accepts, rejects, Bool.and_false]
  rw [refused] at verdict
  refine ⟨peerPool.setInstance data.sender checker, ?_⟩
  simp only [handle, parsed, if_neg nonHello, known, verdict]

/-- **A signed message is always rejected.** Whatever message other than a hello
a node signs and sends, a receiver that holds a fresh session with the node's
key checks the signature against other bytes than were signed, and the check
fails. -/
theorem sent_rejected {clientPrivKey : PrivateKey} {port : UInt16} {peer : IPAddress}
    {sent received : SignedProtoMessage}
    {peerPool : InstancePool Bytes (PeerSession PublicKey)} {sin : SockaddrIn}
    (lossless : pb.Lossless) (layout : pb.Layout) (ideal : ssl.Ideal)
    (small : (pb.serializeMessage data).length < Protobuf.sizeLimit)
    (nonHello : data.packetType ≠ .HELLO)
    (built : sendPkg pb ssl clientPrivKey port data peer = .ok (.sendPacketTcp port sent peer))
    (same : sent.SamePacket received)
    (known : peerPool.getInstance data.sender = some ⟨ssl.publicKey clientPrivKey, none⟩) :
    verifiedData pb received ≠ pb.serializeMessage data ∧
      ∃ pool, handle pb ssl peerPool received sin = some (.verifyFailed data.sender, pool) := by
  obtain ⟨digest, signed, envelope⟩ := sendPkg_eq_ok built
  have carries : received.signedPayload = pb.serializeMessage data := by
    rw [← same, envelope]
    rfl
  have signature : received.signature = digest := by
    rw [← same, envelope]
    rfl
  have different : data ≠ {} := fun default => nonHello (by rw [default])
  have other := verifiedData_ne_signed lossless layout small carries different
  refine ⟨other, handle_fresh lossless small carries nonHello known ?_⟩
  rw [signature, Bool.eq_false_iff]
  exact fun valid => other ((ideal _ _ _ signed _).mp valid)

/-- The pool of a node that knows peer 1 with the given key. -/
def poolOf (key : UInt8) : InstancePool Bytes (PeerSession UInt8) :=
  ⟨AList.singleton [1] ⟨key, none⟩⟩

/-- A ping of peer 1, correctly signed, is rejected as forged. -/
theorem ping_rejected :
    ∃ sent,
      sendPkg WireCodec.protobuf .keyed 7 3324 ping loopback =
        .ok (.sendPacketTcp 3324 sent loopback) ∧
      (poolOf 7).getInstance ping.sender = some ⟨OpenSSL.keyed.publicKey 7, none⟩ ∧
      (handle WireCodec.protobuf .keyed (poolOf 7) (sent.forwarded 3324) loopbackSin).map
        Prod.fst = some (.verifyFailed ping.sender) :=
  ⟨_, rfl, rfl, by decide⟩

theorem sent_rejected_ping :
    verifiedData WireCodec.protobuf (signedMessage (WireCodec.protobuf.serializeMessage ping)
        (7 :: WireCodec.protobuf.serializeMessage ping)) ≠
        WireCodec.protobuf.serializeMessage ping ∧
      ∃ pool, handle WireCodec.protobuf .keyed (poolOf 7)
        (signedMessage (WireCodec.protobuf.serializeMessage ping)
          (7 :: WireCodec.protobuf.serializeMessage ping)) loopbackSin =
          some (.verifyFailed ping.sender, pool) :=
  have built : sendPkg WireCodec.protobuf .keyed 7 3324 ping loopback = .ok _ := rfl
  sent_rejected WireCodec.protobuf_lossless WireCodec.protobuf_layout OpenSSL.keyed_ideal
    (by decide) (by decide) built rfl rfl

end SendAndHandle

end P2PFileSync
