import P2PFileSync.DataStruct.RoutingTable
import P2PFileSync.Packet.Protocol

/-!
# Sending a packet

`Task::send_packet_tcp` opens a connection, takes one from the ttl, records the
sender's port, and writes the packet behind its length. The two kinds of task
the server submits to its thread pool are sending a packet and handling one.
-/

set_option autoImplicit false

namespace P2PFileSync

/-- `sockaddr_in`, the address of an incoming connection. -/
structure SockaddrIn where
  sinFamily : UInt16
  sinPort : UInt16
  sinAddr : UInt32
  deriving DecidableEq, Repr

/-- The constructor of `IPAddress` from an incoming connection and a port, for
the families `AF_INET` and `AF_INET6`. -/
def IPAddress.ofSockaddrIn (inetNtop : UInt16 → UInt32 → Bytes) (socketIn : SockaddrIn)
    (port : UInt16) : IPAddress :=
  if socketIn.sinFamily = 2 ∨ socketIn.sinFamily = 10 then
    ⟨true, port, inetNtop socketIn.sinFamily socketIn.sinAddr⟩
  else ⟨false, port, []⟩

/-- A task of the thread pool, with its arguments. -/
inductive Task where
  | sendPacketTcp (machinePort : UInt16) (msg : SignedProtoMessage) (ipAddr : IPAddress)
  | handle (signedMsg : SignedProtoMessage) (incomingConnection : SockaddrIn)
  deriving DecidableEq, Repr

namespace SignedProtoMessage

/-- The message `send_packet_tcp` writes: the ttl is an unsigned 32-bit number
and is decremented without a test. -/
def forwarded (msg : SignedProtoMessage) (machinePort : UInt16) : SignedProtoMessage :=
  { msg with ttl := msg.ttl - 1, lastForwardPort := machinePort.toUInt32 }

/-- The message after nodes with the given ports have sent it on, one after
another. -/
def forwardedAlong (msg : SignedProtoMessage) (path : List UInt16) : SignedProtoMessage :=
  path.foldl forwarded msg

/-- The message is sent along the path, and no node on it receives it
expired. -/
def Arrives : SignedProtoMessage → List UInt16 → Prop
  | _, [] => False
  | msg, [port] => (msg.forwarded port).ttl ≠ 0
  | msg, port :: next :: path =>
      (msg.forwarded port).ttl ≠ 0 ∧ Arrives (msg.forwarded port) (next :: path)

instance decidableArrives : ∀ (msg : SignedProtoMessage) (path : List UInt16),
    Decidable (Arrives msg path)
  | _, [] => .isFalse id
  | msg, [port] => inferInstanceAs (Decidable ((msg.forwarded port).ttl ≠ 0))
  | msg, port :: next :: path =>
      have := decidableArrives (msg.forwarded port) (next :: path)
      inferInstanceAs (Decidable (_ ∧ _))

/-- Equal but for the two fields that forwarding changes. -/
def SamePacket (first second : SignedProtoMessage) : Prop :=
  { first with ttl := second.ttl, lastForwardPort := second.lastForwardPort } = second

variable {msg : SignedProtoMessage} {machinePort : UInt16}

/-- Forwarding a packet that has not expired takes exactly one from its ttl. -/
theorem forwarded_ttl (machinePort : UInt16) (alive : msg.ttl ≠ 0) :
    (msg.forwarded machinePort).ttl.toNat + 1 = msg.ttl.toNat := by
  have positive : 1 ≤ msg.ttl.toNat :=
    Nat.one_le_iff_ne_zero.mpr fun zero => alive (UInt32.toNat_inj.mp zero)
  have smaller : (1 : UInt32) ≤ msg.ttl := UInt32.le_iff_toNat_le.mpr positive
  have decrement : (msg.ttl - 1).toNat = msg.ttl.toNat - 1 := UInt32.toNat_sub_of_le _ _ smaller
  simp only [forwarded, decrement]
  omega

/-- A packet with a ttl above 1 has not expired. -/
theorem alive_of_one_lt (more : 1 < msg.ttl) : msg.ttl ≠ 0 := by
  intro zero
  rw [zero] at more
  exact absurd more (by decide)

/-- A packet with a ttl above 1 has not expired on the next hop either. -/
theorem forwarded_alive (machinePort : UInt16) (more : 1 < msg.ttl) :
    (msg.forwarded machinePort).ttl ≠ 0 := by
  intro zero
  have decrement := forwarded_ttl machinePort (alive_of_one_lt more)
  have several : 1 < msg.ttl.toNat := UInt32.lt_iff_toNat_lt.mp more
  rw [zero, UInt32.toNat_zero] at decrement
  omega

/-- The ttl at the end of a path and the hops add up to the same number for every
path. -/
theorem Arrives.ttl_add_length {path : List UInt16} (arrives : Arrives msg path) :
    (msg.forwardedAlong path).ttl.toNat + path.length = (msg.ttl - 1).toNat + 1 := by
  induction path generalizing msg with
  | nil => exact arrives.elim
  | cons port path ih =>
      cases path with
      | nil => rfl
      | cons next path =>
          have later := ih arrives.2
          have here := forwarded_ttl next arrives.1
          simp only [forwarded] at here later
          simp only [forwardedAlong, List.foldl_cons, List.length_cons, forwarded] at later ⊢
          omega

theorem SamePacket.refl (msg : SignedProtoMessage) : SamePacket msg msg := rfl

theorem SamePacket.forwarded {first second : SignedProtoMessage} (same : SamePacket first second)
    (machinePort : UInt16) : SamePacket first (second.forwarded machinePort) := by
  unfold SamePacket at *
  rw [← same]
  rfl

theorem SamePacket.signature {first second : SignedProtoMessage} (same : SamePacket first second) :
    second.signature = first.signature := by
  rw [← same]

theorem SamePacket.receiver {first second : SignedProtoMessage} (same : SamePacket first second) :
    second.receiver = first.receiver := by
  rw [← same]

end SignedProtoMessage

/-- The bytes of one packet on a connection: the length of the body as a 32-bit
number, then the body. -/
def frame (pb : Protobuf) (msg : SignedProtoMessage) : Bytes :=
  encodeUint32 (UInt32.ofNat (pb.serializeSigned msg).length) ++ pb.serializeSigned msg

/-- `send_packet_tcp`: the bytes written to the connection; `none` when the
address is not an IPv4 address or the connection is refused. -/
def sendPacketTcp (pb : Protobuf) (connects : IPAddress → Bool) (machinePort : UInt16)
    (msg : SignedProtoMessage) (ipAddr : IPAddress) : Option Bytes :=
  if connects ipAddr then some (frame pb (msg.forwarded machinePort)) else none

theorem sendPacketTcp_eq_some {pb : Protobuf} {connects : IPAddress → Bool}
    {machinePort : UInt16} {msg : SignedProtoMessage} {ipAddr : IPAddress} {wire : Bytes}
    (written : sendPacketTcp pb connects machinePort msg ipAddr = some wire) :
    wire = frame pb (msg.forwarded machinePort) := by
  unfold sendPacketTcp at written
  split at written
  · exact (Option.some.inj written).symm
  · cases written

/-! ## Packets for the examples -/

def loopback : IPAddress := ⟨true, 3324, [49, 50, 55, 46, 48, 46, 48, 46, 49]⟩

def loopbackSin : SockaddrIn := ⟨2, 0, 16777343⟩

/-- A message of peer 1 for peer 2. -/
def ping : ProtoMessage where
  sender := [1]
  receiver := [2]
  packetType := .PING
  payload := some { typeUrl := [116], value := [1] }

/-- A packet for peer 2. -/
def packet (signature : Bytes) : SignedProtoMessage :=
  { receiver := [2], ttl := 5, signature := signature }

end P2PFileSync
