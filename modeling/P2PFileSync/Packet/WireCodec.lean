import P2PFileSync.Foundations.WireFormat
import P2PFileSync.Packet.Protocol

/-!
# The messages on the wire

The wire form of each message of `protocol.proto`, with the field numbers
declared there, and the proof that this concrete protobuf is lossless and has
the documented layout. Unknown fields are skipped and not kept.
-/

set_option autoImplicit false

namespace P2PFileSync

open Wire

namespace WireCodec

/-- A 32-bit enumeration value or integer is sign-extended to 64 bits. -/
def signExtend (n : UInt32) : ℕ :=
  if n.toNat < 2 ^ 31 then n.toNat else n.toNat + (2 ^ 64 - 2 ^ 32)

theorem signExtend_lt (n : UInt32) : signExtend n < 2 ^ 64 := by
  have bound := n.toNat_lt
  unfold signExtend
  split <;> omega

@[simp] theorem ofNat_signExtend (n : UInt32) : UInt32.ofNat (signExtend n) = n := by
  have bound := n.toNat_lt
  apply UInt32.toNat_inj.mp
  rw [UInt32.toNat_ofNat']
  unfold signExtend
  split <;> omega

theorem signExtend_eq_zero {n : UInt32} (zero : signExtend n = 0) : n = 0 := by
  have bound := n.toNat_lt
  apply UInt32.toNat_inj.mp
  unfold signExtend at zero
  split at zero
  · exact zero
  · omega

/-! ## Embedded messages -/

def anyFields (a : ProtoAny) : List Field := bytesField 1 a.typeUrl ++ bytesField 2 a.value

def setAny (a : ProtoAny) (field : Field) : ProtoAny × Bool :=
  match field.number, field.value with
  | 1, .len bytes => ({ a with typeUrl := bytes }, true)
  | 2, .len bytes => ({ a with value := bytes }, true)
  | _, _ => (a, true)

def helloFields (m : ProtoHelloMessage) : List Field :=
  bytesField 2 m.x509Certificate ++ bytesField 5 m.senderId ++ bytesField 6 m.verifiedMsg

def setHello (m : ProtoHelloMessage) (field : Field) : ProtoHelloMessage × Bool :=
  match field.number, field.value with
  | 2, .len bytes => ({ m with x509Certificate := bytes }, true)
  | 5, .len bytes => ({ m with senderId := bytes }, true)
  | 6, .len bytes => ({ m with verifiedMsg := bytes }, true)
  | _, _ => (m, true)

def timestampFields (t : Timestamp) : List Field :=
  varintField 1 t.seconds.toNat ++ varintField 2 (signExtend t.nanos)

def setTimestamp (t : Timestamp) (field : Field) : Timestamp × Bool :=
  match field.number, field.value with
  | 1, .varint n => ({ t with seconds := UInt64.ofNat n }, true)
  | 2, .varint n => ({ t with nanos := UInt32.ofNat n }, true)
  | _, _ => (t, true)

/-! ## Messages -/

def messageFields (m : ProtoMessage) : List Field :=
  varintField 1 (signExtend m.packetType.number) ++
    messageField 2 (m.payload.map fun a => encode (anyFields a)) ++
    messageField 3 (m.timestamp.map fun t => encode (timestampFields t)) ++
    bytesField 5 m.sender ++ bytesField 6 m.receiver

/-- A field of an embedded message is merged into the one already present. -/
def setMessage (m : ProtoMessage) (field : Field) : ProtoMessage × Bool :=
  match field.number, field.value with
  | 1, .varint n => ({ m with packetType := ⟨UInt32.ofNat n⟩ }, true)
  | 2, .len bytes =>
      let (payload, parsed) := parseWith setAny m.getPayload bytes
      ({ m with payload := some payload }, parsed)
  | 3, .len bytes =>
      let (timestamp, parsed) := parseWith setTimestamp (m.timestamp.getD {}) bytes
      ({ m with timestamp := some timestamp }, parsed)
  | 5, .len bytes => ({ m with sender := bytes }, true)
  | 6, .len bytes => ({ m with receiver := bytes }, true)
  | _, _ => (m, true)

def signedFields (m : SignedProtoMessage) : List Field :=
  bytesField 1 m.sender ++ bytesField 2 m.receiver ++ varintField 3 m.lastForwardPort.toNat ++
    varintField 4 m.ttl.toNat ++ bytesField 5 m.signature ++ bytesField 6 m.signedPayload ++
    varintField 7 (signExtend m.signAlgorithm.number)

def setSigned (m : SignedProtoMessage) (field : Field) : SignedProtoMessage × Bool :=
  match field.number, field.value with
  | 1, .len bytes => ({ m with sender := bytes }, true)
  | 2, .len bytes => ({ m with receiver := bytes }, true)
  | 3, .varint n => ({ m with lastForwardPort := UInt32.ofNat n }, true)
  | 4, .varint n => ({ m with ttl := UInt32.ofNat n }, true)
  | 5, .len bytes => ({ m with signature := bytes }, true)
  | 6, .len bytes => ({ m with signedPayload := bytes }, true)
  | 7, .varint n => ({ m with signAlgorithm := ⟨UInt32.ofNat n⟩ }, true)
  | _, _ => (m, true)

/-- Protobuf as the wire format describes it. -/
def protobuf : Protobuf where
  serializeSigned m := encode (signedFields m)
  parseSigned bytes := parseWith setSigned {} bytes
  serializeMessage m := encode (messageFields m)
  parseMessage bytes := parseWith setMessage {} bytes
  serializeAny a := encode (anyFields a)

/-! ## Setting the fields of a message rebuilds it -/

section Numbers

variable {α : Type} {set : α → Field → α × Bool} {message : α} {number : ℕ} {n : UInt32}

/-- A 32-bit number is left out when it is zero. -/
theorem setFields_uint32Field (update : UInt32 → α) (absent : message = update 0)
    (written : set message ⟨number, .varint n.toNat⟩ = (update n, true)) :
    setFields set message (varintField number n.toNat) = (update n, true) := by
  refine setFields_varintField ?_ fun _ => written
  intro elided
  rw [absent, UInt32.toNat_inj.mp (elided.trans UInt32.toNat_zero.symm)]

/-- So is a sign-extended one. -/
theorem setFields_int32Field (update : UInt32 → α) (absent : message = update 0)
    (written : set message ⟨number, .varint (signExtend n)⟩ = (update n, true)) :
    setFields set message (varintField number (signExtend n)) = (update n, true) := by
  refine setFields_varintField ?_ fun _ => written
  intro elided
  rw [absent, signExtend_eq_zero elided]

end Numbers

theorem setFields_anyFields (a : ProtoAny) : setFields setAny {} (anyFields a) = (a, true) := by
  have typeUrl : setFields setAny {} (bytesField 1 a.typeUrl) = ({ typeUrl := a.typeUrl }, true) :=
    setFields_bytesField (fun elided => by rw [elided]) (fun _ => rfl)
  rw [anyFields, setFields_append typeUrl]
  exact setFields_bytesField (fun elided => by rw [← elided]) (fun _ => rfl)

theorem anyFields_inRange (a : ProtoAny) : ∀ field ∈ anyFields a, field.InRange := by
  rw [anyFields, List.forall_mem_append]
  exact ⟨bytesField_inRange (by decide) _, bytesField_inRange (by decide) _⟩

theorem setFields_timestampFields (t : Timestamp) :
    setFields setTimestamp {} (timestampFields t) = (t, true) := by
  have seconds : setFields setTimestamp {} (varintField 1 t.seconds.toNat) =
      ({ seconds := t.seconds }, true) := by
    refine setFields_varintField ?_ ?_
    · intro elided
      rw [UInt64.toNat_inj.mp (elided.trans UInt64.toNat_zero.symm)]
    · intro _
      simp only [setTimestamp, UInt64.ofNat_toNat]
  rw [timestampFields, setFields_append seconds]
  exact setFields_int32Field (fun nanos => (⟨t.seconds, nanos⟩ : Timestamp)) rfl
    (by simp only [setTimestamp, ofNat_signExtend])

theorem timestampFields_inRange (t : Timestamp) :
    ∀ field ∈ timestampFields t, field.InRange := by
  rw [timestampFields, List.forall_mem_append]
  exact ⟨varintField_inRange (by decide) t.seconds.toNat_lt,
    varintField_inRange (by decide) (signExtend_lt _)⟩

theorem setFields_signedFields (m : SignedProtoMessage) :
    setFields setSigned {} (signedFields m) = (m, true) := by
  have sender : setFields setSigned {} (bytesField 1 m.sender) = ({ sender := m.sender }, true) :=
    setFields_bytesField (fun elided => by rw [elided]) (fun _ => rfl)
  have receiver : setFields setSigned { sender := m.sender } (bytesField 2 m.receiver) =
      ({ sender := m.sender, receiver := m.receiver }, true) :=
    setFields_bytesField (fun elided => by rw [elided]) (fun _ => rfl)
  have port : setFields setSigned { sender := m.sender, receiver := m.receiver }
      (varintField 3 m.lastForwardPort.toNat) =
        ({ sender := m.sender, receiver := m.receiver, lastForwardPort := m.lastForwardPort },
          true) :=
    setFields_uint32Field
      (fun port => ({ sender := m.sender, receiver := m.receiver,
                      lastForwardPort := port } : SignedProtoMessage)) rfl
      (by simp only [setSigned, UInt32.ofNat_toNat])
  have ttl : setFields setSigned
      { sender := m.sender, receiver := m.receiver, lastForwardPort := m.lastForwardPort }
      (varintField 4 m.ttl.toNat) =
        ({ sender := m.sender, receiver := m.receiver, lastForwardPort := m.lastForwardPort,
           ttl := m.ttl }, true) :=
    setFields_uint32Field
      (fun ttl => ({ sender := m.sender, receiver := m.receiver,
                     lastForwardPort := m.lastForwardPort, ttl := ttl } : SignedProtoMessage)) rfl
      (by simp only [setSigned, UInt32.ofNat_toNat])
  have signature : setFields setSigned
      { sender := m.sender, receiver := m.receiver, lastForwardPort := m.lastForwardPort,
        ttl := m.ttl } (bytesField 5 m.signature) =
        ({ sender := m.sender, receiver := m.receiver, lastForwardPort := m.lastForwardPort,
           ttl := m.ttl, signature := m.signature }, true) :=
    setFields_bytesField (fun elided => by rw [elided]) (fun _ => rfl)
  have payload : setFields setSigned
      { sender := m.sender, receiver := m.receiver, lastForwardPort := m.lastForwardPort,
        ttl := m.ttl, signature := m.signature } (bytesField 6 m.signedPayload) =
        ({ sender := m.sender, receiver := m.receiver, lastForwardPort := m.lastForwardPort,
           ttl := m.ttl, signature := m.signature, signedPayload := m.signedPayload }, true) :=
    setFields_bytesField (fun elided => by rw [elided]) (fun _ => rfl)
  simp only [signedFields, List.append_assoc]
  rw [setFields_append sender, setFields_append receiver, setFields_append port,
    setFields_append ttl, setFields_append signature, setFields_append payload]
  refine setFields_int32Field (fun number => { m with signAlgorithm := ⟨number⟩ }) rfl ?_
  simp only [setSigned, ofNat_signExtend]

theorem signedFields_inRange (m : SignedProtoMessage) :
    ∀ field ∈ signedFields m, field.InRange := by
  have port : m.lastForwardPort.toNat < 2 ^ 64 :=
    Nat.lt_trans m.lastForwardPort.toNat_lt (by decide)
  have ttl : m.ttl.toNat < 2 ^ 64 := Nat.lt_trans m.ttl.toNat_lt (by decide)
  simp only [signedFields, List.forall_mem_append]
  refine ⟨⟨⟨⟨⟨⟨?_, ?_⟩, ?_⟩, ?_⟩, ?_⟩, ?_⟩, ?_⟩
  · exact bytesField_inRange (by decide) _
  · exact bytesField_inRange (by decide) _
  · exact varintField_inRange (by decide) port
  · exact varintField_inRange (by decide) ttl
  · exact bytesField_inRange (by decide) _
  · exact bytesField_inRange (by decide) _
  · exact varintField_inRange (by decide) (signExtend_lt _)

theorem messageFields_inRange (m : ProtoMessage) : ∀ field ∈ messageFields m, field.InRange := by
  simp only [messageFields, List.forall_mem_append]
  refine ⟨⟨⟨⟨?_, ?_⟩, ?_⟩, ?_⟩, ?_⟩
  · exact varintField_inRange (by decide) (signExtend_lt _)
  · exact messageField_inRange (by decide) _
  · exact messageField_inRange (by decide) _
  · exact bytesField_inRange (by decide) _
  · exact bytesField_inRange (by decide) _

/-- The embedded messages are smaller than the message, so they are read back
too. -/
theorem setFields_messageFields {m : ProtoMessage}
    (small : (encode (messageFields m)).length < 2 ^ 31) :
    setFields setMessage {} (messageFields m) = (m, true) := by
  have typeField : setFields setMessage {} (varintField 1 (signExtend m.packetType.number)) =
      ({ packetType := m.packetType }, true) :=
    setFields_int32Field (fun number => ({ packetType := ⟨number⟩ } : ProtoMessage)) rfl
      (by simp only [setMessage, ofNat_signExtend])
  have payload : setFields setMessage { packetType := m.packetType }
      (messageField 2 (m.payload.map fun a => encode (anyFields a))) =
        ({ packetType := m.packetType, payload := m.payload }, true) := by
    cases present : m.payload with
    | none => rfl
    | some a =>
        have inside : (encode (anyFields a)).length < 2 ^ 31 := by
          refine Nat.lt_trans (length_lt_encode_length 2 ?_) small
          simp only [messageFields, present, Option.map_some, messageField, List.mem_append,
            List.mem_singleton, true_or, or_true]
        have parsed : parseWith setAny {} (encode (anyFields a)) = (a, true) :=
          parseWith_encode (anyFields_inRange a) inside (setFields_anyFields a)
        apply setFields_messageField (fun elided => by cases elided)
        intro bytes written
        cases written
        simp only [setMessage, ProtoMessage.getPayload, Option.getD_none, parsed]
  have timestamp : setFields setMessage { packetType := m.packetType, payload := m.payload }
      (messageField 3 (m.timestamp.map fun t => encode (timestampFields t))) =
        ({ packetType := m.packetType, payload := m.payload, timestamp := m.timestamp },
          true) := by
    cases present : m.timestamp with
    | none => rfl
    | some t =>
        have inside : (encode (timestampFields t)).length < 2 ^ 31 := by
          refine Nat.lt_trans (length_lt_encode_length 3 ?_) small
          simp only [messageFields, present, Option.map_some, messageField, List.mem_append,
            List.mem_singleton, true_or, or_true]
        have parsed : parseWith setTimestamp {} (encode (timestampFields t)) = (t, true) :=
          parseWith_encode (timestampFields_inRange t) inside (setFields_timestampFields t)
        apply setFields_messageField (fun elided => by cases elided)
        intro bytes written
        cases written
        simp only [setMessage, Option.getD_none, parsed]
  have sender : setFields setMessage
      { packetType := m.packetType, payload := m.payload, timestamp := m.timestamp }
      (bytesField 5 m.sender) =
        ({ packetType := m.packetType, payload := m.payload, timestamp := m.timestamp,
           sender := m.sender }, true) :=
    setFields_bytesField (fun elided => by rw [elided]) (fun _ => rfl)
  simp only [messageFields, List.append_assoc]
  rw [setFields_append typeField, setFields_append payload, setFields_append timestamp,
    setFields_append sender]
  exact setFields_bytesField (fun elided => by rw [← elided]) (fun _ => rfl)

theorem setFields_helloFields (m : ProtoHelloMessage) :
    setFields setHello {} (helloFields m) = (m, true) := by
  have certificate : setFields setHello {} (bytesField 2 m.x509Certificate) =
      ({ x509Certificate := m.x509Certificate }, true) :=
    setFields_bytesField (fun elided => by rw [elided]) (fun _ => rfl)
  have sender : setFields setHello { x509Certificate := m.x509Certificate }
      (bytesField 5 m.senderId) =
        ({ senderId := m.senderId, x509Certificate := m.x509Certificate }, true) :=
    setFields_bytesField (fun elided => by rw [elided]) (fun _ => rfl)
  simp only [helloFields, List.append_assoc]
  rw [setFields_append certificate, setFields_append sender]
  exact setFields_bytesField (fun elided => by rw [← elided]) (fun _ => rfl)

theorem helloFields_inRange (m : ProtoHelloMessage) :
    ∀ field ∈ helloFields m, field.InRange := by
  simp only [helloFields, List.forall_mem_append]
  refine ⟨⟨?_, ?_⟩, ?_⟩
  · exact bytesField_inRange (by decide) _
  · exact bytesField_inRange (by decide) _
  · exact bytesField_inRange (by decide) _

/-! ## The laws -/

/-- **The wire form is lossless.** -/
theorem protobuf_lossless : protobuf.Lossless where
  signed := fun m small =>
    parseWith_encode (signedFields_inRange m) small (setFields_signedFields m)
  message := fun m small =>
    parseWith_encode (messageFields_inRange m) small (setFields_messageFields small)

/-- A hello message is read back from the payload it was packed into. -/
theorem parse_hello {m : ProtoHelloMessage} (small : (encode (helloFields m)).length < 2 ^ 31) :
    parseWith setHello {} (encode (helloFields m)) = (m, true) :=
  parseWith_encode (helloFields_inRange m) small (setFields_helloFields m)

/-- The payload stands behind the packet type and the tag of its field. -/
theorem protobuf_layout : protobuf.Layout where
  embedded := by
    intro m payload present
    refine ⟨encode (varintField 1 (signExtend m.packetType.number)) ++
        (encodeVarint (2 * 8 + 2) ++ encodeVarint (encode (anyFields payload)).length),
      encode (messageField 3 (m.timestamp.map fun t => encode (timestampFields t)) ++
        bytesField 5 m.sender ++ bytesField 6 m.receiver), ?_, ?_⟩
    · simp only [ne_eq, List.append_eq_nil_iff, encodeVarint_ne_nil, and_false,
        not_false_eq_true]
    · simp only [protobuf, messageFields, present, Option.map_some, messageField, encode_append,
        encode_cons, encode_nil, encodeField, encodeValue, Value.wireType, List.append_nil,
        List.append_assoc]
  default_message := rfl
  default_any := rfl

end WireCodec

end P2PFileSync
