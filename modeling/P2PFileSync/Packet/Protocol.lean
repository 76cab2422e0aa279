import P2PFileSync.Foundations.Bytes

/-!
# Messages

The messages of `protocol.proto` and what the daemon relies on of protobuf. A
field that is never set holds its proto3 default. A proto3 enumeration is open:
it can hold any 32-bit number, named or not.

Protobuf itself is not part of the repository. `Protobuf` lists the calls the
daemon makes; `Lossless` and `Layout` state the documented behaviour that some
results rely on. Protobuf neither writes nor reads a message of two gibibytes
or more, so losslessness is about messages below that size.
-/

set_option autoImplicit false

namespace P2PFileSync

/-- `ProtoPayloadType`, by its number on the wire. -/
structure ProtoPayloadType where
  number : UInt32
  deriving DecidableEq, Repr

namespace ProtoPayloadType

def HELLO : ProtoPayloadType := ⟨0⟩
def PING : ProtoPayloadType := ⟨1⟩
def PONG : ProtoPayloadType := ⟨2⟩
def FILE_REQUEST : ProtoPayloadType := ⟨3⟩
def HEARTBEAT : ProtoPayloadType := ⟨4⟩
def ACK : ProtoPayloadType := ⟨5⟩
def NACK : ProtoPayloadType := ⟨6⟩
def REDIRECT : ProtoPayloadType := ⟨7⟩

end ProtoPayloadType

/-- `ProtoSignAlgorithm`, by its number on the wire. -/
structure ProtoSignAlgorithm where
  number : UInt32
  deriving DecidableEq, Repr

def ProtoSignAlgorithm.SHA_256 : ProtoSignAlgorithm := ⟨0⟩

/-- `google.protobuf.Timestamp`; the signed numbers are kept as their bits. -/
structure Timestamp where
  seconds : UInt64 := 0
  nanos : UInt32 := 0
  deriving DecidableEq, Repr

/-- `google.protobuf.Any`. -/
structure ProtoAny where
  typeUrl : Bytes := []
  value : Bytes := []
  deriving DecidableEq, Repr

structure ProtoMessage where
  sender : Bytes := []
  receiver : Bytes := []
  packetType : ProtoPayloadType := .HELLO
  timestamp : Option Timestamp := none
  payload : Option ProtoAny := none
  deriving DecidableEq, Repr

/-- `payload()`: the embedded message, or its default when it is absent. -/
def ProtoMessage.getPayload (m : ProtoMessage) : ProtoAny := m.payload.getD {}

structure SignedProtoMessage where
  sender : Bytes := []
  receiver : Bytes := []
  lastForwardPort : UInt32 := 0
  ttl : UInt32 := 0
  signature : Bytes := []
  signedPayload : Bytes := []
  signAlgorithm : ProtoSignAlgorithm := .SHA_256
  deriving DecidableEq, Repr

structure ProtoHelloMessage where
  senderId : Bytes := []
  verifiedMsg : Bytes := []
  x509Certificate : Bytes := []
  deriving DecidableEq, Repr

/-- The calls to protobuf. A parse returns the message it filled in and whether
it succeeded; after a failure the message holds whatever was stored. -/
structure Protobuf where
  serializeSigned : SignedProtoMessage → Bytes
  parseSigned : Bytes → SignedProtoMessage × Bool
  serializeMessage : ProtoMessage → Bytes
  parseMessage : Bytes → ProtoMessage × Bool
  serializeAny : ProtoAny → Bytes

namespace Protobuf

/-- The size from which protobuf refuses to write or read a message. -/
def sizeLimit : ℕ := 2 ^ 31

/-- Serialising and then parsing gives the same message back. -/
structure Lossless (pb : Protobuf) : Prop where
  signed : ∀ m, (pb.serializeSigned m).length < sizeLimit →
    pb.parseSigned (pb.serializeSigned m) = (m, true)
  message : ∀ m, (pb.serializeMessage m).length < sizeLimit →
    pb.parseMessage (pb.serializeMessage m) = (m, true)

/-- Where the wire form of a message has its parts: an embedded message stands
behind the tag and length of its field, and default values take no bytes. -/
structure Layout (pb : Protobuf) : Prop where
  embedded : ∀ m payload, m.payload = some payload → ∃ before after, before ≠ [] ∧
    pb.serializeMessage m = before ++ pb.serializeAny payload ++ after
  default_message : pb.serializeMessage {} = []
  default_any : pb.serializeAny {} = []

variable {pb : Protobuf}

/-- Only the default message takes no bytes. -/
theorem serializeMessage_ne_nil (lossless : pb.Lossless) (layout : pb.Layout) {m : ProtoMessage}
    (different : m ≠ {}) : pb.serializeMessage m ≠ [] := by
  intro empty
  have small : ∀ m, pb.serializeMessage m = [] → (pb.serializeMessage m).length < sizeLimit := by
    intro m empty
    rw [empty]
    decide
  have parsed := lossless.message m (small m empty)
  have parsedDefault := lossless.message {} (small _ layout.default_message)
  rw [empty] at parsed
  rw [layout.default_message, parsed] at parsedDefault
  exact different (congrArg Prod.fst parsedDefault)

/-- A message that is not the default takes more bytes than its payload
alone. -/
theorem serializeAny_length_lt (lossless : pb.Lossless) (layout : pb.Layout) {m : ProtoMessage}
    (different : m ≠ {}) :
    (pb.serializeAny m.getPayload).length < (pb.serializeMessage m).length := by
  cases present : m.payload with
  | none =>
      have content := serializeMessage_ne_nil lossless layout different
      simp only [ProtoMessage.getPayload, present, Option.getD_none, layout.default_any,
        List.length_nil]
      exact List.length_pos_iff.mpr content
  | some payload =>
      obtain ⟨before, after, nonempty, wire⟩ := layout.embedded m payload present
      have positive := List.length_pos_iff.mpr nonempty
      simp only [ProtoMessage.getPayload, present, Option.getD_some, wire, List.length_append]
      omega

end Protobuf

end P2PFileSync
