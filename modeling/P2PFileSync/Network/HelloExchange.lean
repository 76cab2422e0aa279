import P2PFileSync.Foundations.TokenSystem
import P2PFileSync.Packet.HelloMessage

/-!
# Two nodes exchanging hello messages

Two nodes send hello messages to each other. Each message in flight is a token;
delivering it runs `internal_handle` at its receiver, and the message the
handler sends in reply is a new token. The messages are delivered in any order,
and every packet arrives with any address, port and ttl.

A node without a route to the sender takes the route and does not reply; a node
with a route replies. So each delivery either removes one message and one
unknowing node, or replaces a message by another one: the number of messages
minus the number of unknowing nodes never changes (`Step.balance`).

* One message between two new nodes is absorbed, and its sender never learns a
  route (`one_hello_not_mutual`).
* The exchange comes to an end exactly when there are no more messages than
  unknowing nodes (`quiesces_iff`).
-/

set_option autoImplicit false

namespace P2PFileSync

namespace HelloExchange

open TokenSystem

/-- One of the two nodes. -/
inductive Party where
  | a
  | b
  deriving DecidableEq, Repr

def Party.peer : Party → Party
  | .a => .b
  | .b => .a

@[simp] theorem Party.peer_peer (party : Party) : party.peer.peer = party := by cases party <;> rfl

theorem Party.peer_ne (party : Party) : party.peer ≠ party := by cases party <;> decide

theorem Party.eq_or_eq_peer (party other : Party) : other = party ∨ other = party.peer := by
  cases party <;> cases other <;> decide

/-- What a receiver sees of a packet beside the message. -/
structure LastHop where
  prevPort : UInt16
  clientAddress : SockaddrIn
  ttl : UInt32
  deriving DecidableEq, Repr

/-- A hello message on its way. -/
structure InFlightHello where
  data : ProtoMessage
  lastHop : LastHop
  deriving DecidableEq, Repr

variable {X509 X509Store PublicKey : Type}

/-- The two nodes, and how many messages they have sent since the start; no node
reads the count. -/
structure Exchange (X509 X509Store PublicKey : Type) where
  node : Party → P2PServerContext X509 X509Store PublicKey
  sent : ℕ

section System

variable (env : HelloExternals X509 X509Store PublicKey) (arrival : ℕ → LastHop)

/-- The call of the handler at the receiver of a message. -/
def InFlightHello.call (hello : InFlightHello) : HelloCall where
  message := env.unpackTo hello.data.getPayload
  prevPort := hello.lastHop.prevPort
  clientAddress := hello.lastHop.clientAddress
  ttl := hello.lastHop.ttl

/-- The node a message is addressed to. -/
def receiverOf (exchange : Exchange X509 X509Store PublicKey) (data : ProtoMessage) :
    Option Party :=
  if (exchange.node .a).deviceId = data.receiver then some .a
  else if (exchange.node .b).deviceId = data.receiver then some .b
  else none

/-- The exchange after one of the nodes handled a message: the message it sent,
if any, will arrive as the next one of the given arrivals. -/
def afterHandling (exchange : Exchange X509 X509Store PublicKey) (party : Party)
    (result : HelloResult X509 X509Store PublicKey) :
    Exchange X509 X509Store PublicKey × List InFlightHello :=
  match result.sent with
  | none => ({ exchange with node := Function.update exchange.node party result.server }, [])
  | some (data, _) =>
      ({ node := Function.update exchange.node party result.server, sent := exchange.sent + 1 },
        [⟨data, arrival exchange.sent⟩])

/-- Deliver a message to its receiver. -/
def deliver (exchange : Exchange X509 X509Store PublicKey) (hello : InFlightHello) :
    Option (Exchange X509 X509Store PublicKey × List InFlightHello) :=
  match receiverOf exchange hello.data with
  | none => none
  | some party =>
      some (afterHandling arrival exchange party ((hello.call env).handle env
        (exchange.node party)))

def system : TokenSystem (Exchange X509 X509Store PublicKey) InFlightHello := ⟨deliver env arrival⟩

end System

/-! ## Two nodes with valid certificates -/

section Valid

variable (env : HelloExternals X509 X509Store PublicKey)

/-- `package_pkg` only wraps the message for the receiver. -/
def Wraps (hello : ProtoHelloMessage) : Prop :=
  ∀ receiver, (env.packagePkg hello receiver).receiver = receiver ∧
    env.unpackTo (env.packagePkg hello receiver).getPayload = hello

/-- The two nodes have different ids, and each one's certificate verifies at the
other one. -/
structure ValidPair (exchange : Exchange X509 X509Store PublicKey) : Prop where
  distinct : (exchange.node .a).deviceId ≠ (exchange.node .b).deviceId
  certificate : ∀ party, env.Verifies (exchange.node party).x509Store
    (env.i2dX509 (exchange.node party.peer).clientCert)
  wraps : ∀ party, Wraps env (internalConstruct env (exchange.node party))

/-- A hello message for one of the nodes, from the other one, with a valid
certificate. -/
structure Genuine (exchange : Exchange X509 X509Store PublicKey) (party : Party)
    (data : ProtoMessage) : Prop where
  receiver : data.receiver = (exchange.node party).deviceId
  sender : (env.unpackTo data.getPayload).senderId = (exchange.node party.peer).deviceId
  certificate : env.Verifies (exchange.node party).x509Store
    (env.unpackTo data.getPayload).x509Certificate

/-- Two nodes with valid certificates, and messages between them in flight. -/
structure Valid (c : Config (Exchange X509 X509Store PublicKey) InFlightHello) : Prop where
  pair : ValidPair env c.state
  genuine : ∀ hello ∈ c.tokens, ∃ party, Genuine env c.state party hello.data

end Valid

/-- The node has a route to the other one. -/
def Exchange.Knows (exchange : Exchange X509 X509Store PublicKey) (party : Party) : Prop :=
  ((exchange.node party).routingTable.route (exchange.node party.peer).deviceId).isSome = true

instance (exchange : Exchange X509 X509Store PublicKey) (party : Party) :
    Decidable (exchange.Knows party) := inferInstanceAs (Decidable (_ = true))

/-- How many of the two nodes have no route to the other one. -/
def Exchange.unknowing (exchange : Exchange X509 X509Store PublicKey) : ℕ :=
  (if exchange.Knows .a then 0 else 1) + if exchange.Knows .b then 0 else 1

/-! ## Nodes for the examples -/

theorem plain_wraps {hello : ProtoHelloMessage}
    (small : (Wire.encode (WireCodec.helloFields hello)).length < Protobuf.sizeLimit) :
    Wraps HelloExternals.plain hello :=
  fun _ => ⟨rfl, congrArg Prod.fst (WireCodec.parse_hello small)⟩

/-- Two nodes that have just been started. -/
def newPair : Exchange (UInt8 × UInt8) UInt8 UInt8 where
  node
    | .a => newNode 1
    | .b => newNode 2
  sent := 0

theorem validPair_newPair : ValidPair .plain newPair where
  distinct := by decide
  certificate := fun party => by cases party <;> exact ⟨_, rfl, by decide⟩
  wraps := fun party => plain_wraps (by cases party <;> decide)

def directHop : LastHop := ⟨3324, loopbackSin, 10⟩

/-! ## One delivery -/

section Delivery

variable {env : HelloExternals X509 X509Store PublicKey} {arrival : ℕ → LastHop}
  {exchange next : Exchange X509 X509Store PublicKey} {party : Party} {data : ProtoMessage}

variable (env exchange party) in
/-- What delivering a genuine message does: a node without a route takes it, and
a node with a route replies. The other node is not involved. -/
inductive Delivered : Exchange X509 X509Store PublicKey → List InFlightHello → Prop where
  | absorbed {next : Exchange X509 X509Store PublicKey} (unknown : ¬ exchange.Knows party)
      (sent : next.sent = exchange.sent) : Delivered next []
  | answered {next : Exchange X509 X509Store PublicKey} {reply : InFlightHello}
      (known : exchange.Knows party) (sent : next.sent = exchange.sent + 1)
      (genuine : Genuine env exchange party.peer reply.data) : Delivered next [reply]

/-- The nodes after a step are the nodes before it, with more sessions and
routes. -/
def Exchange.Grows (exchange next : Exchange X509 X509Store PublicKey) : Prop :=
  ∀ party, P2PFileSync.Grows (exchange.node party) (next.node party)

theorem ValidPair.grows (valid : ValidPair env exchange) (grows : exchange.Grows next) :
    ValidPair env next where
  distinct := by
    rw [(grows .a).deviceId, (grows .b).deviceId]
    exact valid.distinct
  certificate := fun party => by
    rw [(grows party).x509Store, (grows party.peer).clientCert]
    exact valid.certificate party
  wraps := fun party => by
    rw [(grows party).internalConstruct]
    exact valid.wraps party

theorem Genuine.grows (genuine : Genuine env exchange party data) (grows : exchange.Grows next) :
    Genuine env next party data where
  receiver := by
    rw [(grows party).deviceId]
    exact genuine.receiver
  sender := by
    rw [(grows party.peer).deviceId]
    exact genuine.sender
  certificate := by
    rw [(grows party).x509Store]
    exact genuine.certificate

theorem ValidPair.receiverOf (valid : ValidPair env exchange)
    (receiver : data.receiver = (exchange.node party).deviceId) :
    receiverOf exchange data = some party := by
  unfold HelloExchange.receiverOf
  cases party with
  | a => rw [receiver, if_pos rfl]
  | b => rw [receiver, if_neg valid.distinct, if_pos rfl]

/-- The message a node constructs for the other one is genuine. -/
theorem ValidPair.genuine_package (valid : ValidPair env exchange) (party : Party) :
    Genuine env exchange party.peer (env.packagePkg
      (internalConstruct env (exchange.node party)) (exchange.node party.peer).deviceId) where
  receiver := (valid.wraps party _).1
  sender := by
    rw [(valid.wraps party _).2, Party.peer_peer]
    rfl
  certificate := by
    rw [(valid.wraps party _).2]
    have certificate := valid.certificate party.peer
    rw [Party.peer_peer] at certificate
    exact certificate

variable (arrival) in
/-- **Delivering a genuine message.** -/
theorem deliver_genuine (valid : ValidPair env exchange) {hello : InFlightHello}
    (genuine : Genuine env exchange party hello.data) :
    ∃ next produced, deliver env arrival exchange hello = some (next, produced) ∧
      exchange.Grows next ∧ next.Knows party ∧
      next.node party.peer = exchange.node party.peer ∧
      Delivered env exchange party next produced := by
  have accepts : Accepts env (exchange.node party) (hello.call env).message :=
    .inr genuine.certificate
  obtain ⟨handled, _, sent⟩ := handle_of_accepts accepts
  have sender : (hello.call env).message.senderId = (exchange.node party.peer).deviceId :=
    genuine.sender
  have delivered : deliver env arrival exchange hello =
      some (afterHandling arrival exchange party
        ((hello.call env).handle env (exchange.node party))) := by
    rw [deliver, valid.receiverOf genuine.receiver]
  generalize (hello.call env).handle env (exchange.node party) = result at *
  have nodes : ∀ next : Exchange X509 X509Store PublicKey,
      next.node = Function.update exchange.node party result.server →
        exchange.Grows next ∧ next.Knows party ∧
          next.node party.peer = exchange.node party.peer := by
    intro next updated
    have other : next.node party.peer = exchange.node party.peer := by
      rw [updated, Function.update_of_ne party.peer_ne]
    have here : next.node party = result.server := by
      rw [updated, Function.update_self]
    refine ⟨?_, ?_, other⟩
    · intro which
      rcases party.eq_or_eq_peer which with rfl | rfl
      · rw [here]
        exact handled.grows
      · rw [other]
        exact .refl _
    · rw [Exchange.Knows, here, other, ← sender, handled.route, Option.isSome_some]
  rw [sender] at sent
  by_cases knows : exchange.Knows party
  · have outcome := delivered
    rw [afterHandling, sent.trans (if_pos knows)] at outcome
    obtain ⟨grows, knowsNext, other⟩ := nodes
      ⟨Function.update exchange.node party result.server, exchange.sent + 1⟩ rfl
    exact ⟨_, _, outcome, grows, knowsNext, other,
      .answered knows rfl (valid.genuine_package party)⟩
  · have outcome := delivered
    rw [afterHandling, sent.trans (if_neg knows)] at outcome
    obtain ⟨grows, knowsNext, other⟩ := nodes
      ⟨Function.update exchange.node party result.server, exchange.sent⟩ rfl
    exact ⟨_, _, outcome, grows, knowsNext, other, .absorbed knows rfl⟩

end Delivery

/-! ## One step -/

section Step

variable {env : HelloExternals X509 X509Store PublicKey} {arrival : ℕ → LastHop}
  {c d : Config (Exchange X509 X509Store PublicKey) InFlightHello}

/-- A step delivers a message to the node it is addressed to. -/
structure Delivers (env : HelloExternals X509 X509Store PublicKey)
    (c d : Config (Exchange X509 X509Store PublicKey) InFlightHello) (party : Party)
    (rest produced : List InFlightHello) : Prop where
  tokens : ∃ hello, c.tokens.Perm (hello :: rest) ∧ Genuine env c.state party hello.data
  produces : d.tokens = rest ++ produced
  grows : c.state.Grows d.state
  learnt : d.state.Knows party
  other : d.state.Knows party.peer ↔ c.state.Knows party.peer
  delivered : Delivered env c.state party d.state produced

theorem delivers_of_step (valid : Valid env c) (step : (system env arrival).Step c d) :
    ∃ party rest produced, Delivers env c d party rest produced := by
  obtain ⟨hello, fires⟩ := step
  obtain ⟨party, genuine⟩ := valid.genuine hello fires.mem
  obtain ⟨rest, produced, perm, outcome, tokens⟩ := fires.elim
  obtain ⟨next, replies, delivery, grows, learnt, other, delivered⟩ :=
    deliver_genuine arrival valid.pair genuine
  cases outcome.symm.trans delivery
  refine ⟨party, rest, produced, ⟨hello, perm, genuine⟩, tokens, grows, learnt, ?_, delivered⟩
  unfold Exchange.Knows
  rw [other, (grows party.peer.peer).deviceId]

variable (arrival) in
/-- A message in flight can be delivered. -/
theorem Valid.enabled (valid : Valid env c) (pending : c.tokens ≠ []) :
    ∃ d, (system env arrival).Step c d := by
  obtain ⟨hello, member⟩ := List.exists_mem_of_ne_nil _ pending
  obtain ⟨party, genuine⟩ := valid.genuine hello member
  obtain ⟨next, produced, delivery, _⟩ := deliver_genuine arrival valid.pair genuine
  have outcome : (system env arrival).fire c.state hello = some (next, produced) := delivery
  obtain ⟨d, fires, _⟩ := exists_fires member outcome
  exact ⟨d, hello, fires⟩

theorem Valid.step (valid : Valid env c) (step : (system env arrival).Step c d) :
    Valid env d := by
  obtain ⟨party, rest, produced, delivers⟩ := delivers_of_step valid step
  refine ⟨valid.pair.grows delivers.grows, ?_⟩
  intro hello member
  rw [delivers.produces] at member
  rcases List.mem_append.mp member with old | new
  · obtain ⟨delivered, perm, _⟩ := delivers.tokens
    obtain ⟨receiver, genuine⟩ :=
      valid.genuine hello (perm.mem_iff.mpr (List.mem_cons_of_mem _ old))
    exact ⟨receiver, genuine.grows delivers.grows⟩
  · cases delivers.delivered with
    | absorbed => cases new
    | answered _ _ genuine =>
        obtain rfl := List.mem_singleton.mp new
        exact ⟨_, genuine.grows delivers.grows⟩

theorem Exchange.unknowing_eq (exchange : Exchange X509 X509Store PublicKey) (party : Party) :
    exchange.unknowing = (if exchange.Knows party then 0 else 1) +
      if exchange.Knows party.peer then 0 else 1 := by
  cases party with
  | a => rfl
  | b => exact Nat.add_comm _ _

/-- **The balance.** A step removes one message and one unknowing node, or
replaces one message. -/
theorem step_balance (valid : Valid env c) (step : (system env arrival).Step c d) :
    d.tokens.length + c.state.unknowing = c.tokens.length + d.state.unknowing ∧
      d.state.sent + c.state.unknowing = c.state.sent + 1 + d.state.unknowing := by
  obtain ⟨party, rest, produced, delivers⟩ := delivers_of_step valid step
  obtain ⟨_, perm, _⟩ := delivers.tokens
  have count := perm.length_eq
  rw [List.length_cons] at count
  have after := d.state.unknowing_eq party
  simp only [delivers.learnt, if_true, delivers.other] at after
  have before := c.state.unknowing_eq party
  rw [delivers.produces, List.length_append]
  cases delivers.delivered with
  | absorbed unknown sent =>
      rw [if_neg unknown] at before
      rw [List.length_nil]
      omega
  | answered known sent =>
      rw [if_pos known] at before
      rw [List.length_singleton]
      omega

theorem Genuine.party_eq {exchange : Exchange X509 X509Store PublicKey} {data : ProtoMessage}
    {party other : Party} (valid : ValidPair env exchange)
    (genuine : Genuine env exchange party data) (second : Genuine env exchange other data) :
    other = party :=
  Option.some.inj
    ((valid.receiverOf second.receiver).symm.trans (valid.receiverOf genuine.receiver))

/-! ## Coming to an end -/

variable (env arrival c) in
/-- In every order of delivery only finitely many further messages are sent. -/
def Quiesces : Prop :=
  ∀ run : ℕ → Config (Exchange X509 X509Store PublicKey) InFlightHello, run 0 = c →
    (∀ n, (system env arrival).Step (run n) (run (n + 1))) →
      ∃ bound, ∀ n, (run n).state.sent ≤ bound

/-- With more messages than unknowing nodes, the exchange goes on for ever. -/
theorem not_quiesces (valid : Valid env c) (more : c.state.unknowing < c.tokens.length) :
    ¬ Quiesces env arrival c := by
  intro quiesces
  have preserved : ∀ c d, Valid env c ∧ c.state.unknowing < c.tokens.length →
      (system env arrival).Step c d → Valid env d ∧ d.state.unknowing < d.tokens.length := by
    rintro c d ⟨valid, more⟩ step
    have balance := (step_balance valid step).1
    exact ⟨valid.step step, by omega⟩
  have enabled : ∀ c, Valid env c ∧ c.state.unknowing < c.tokens.length →
      ∃ d, (system env arrival).Step c d := by
    rintro c ⟨valid, more⟩
    exact valid.enabled arrival (List.ne_nil_of_length_pos (Nat.zero_lt_of_lt more))
  obtain ⟨run, starts, steps⟩ := exists_infinite_run preserved enabled ⟨valid, more⟩
  obtain ⟨bound, bounded⟩ := quiesces run starts steps
  have validRun := infinite_run_preserves steps (Valid env)
    (fun c d valid step => valid.step step) (starts ▸ valid)
  -- after n steps, all but the ones that taught a node have sent a message
  have count : ∀ n, n ≤ (run n).state.sent + (run 0).state.unknowing := by
    have exact_count : ∀ n, (run n).state.sent + (run 0).state.unknowing =
        (run 0).state.sent + n + (run n).state.unknowing := by
      intro n
      induction n with
      | zero => rfl
      | succ n ih =>
          have balance := (step_balance (validRun n) (steps n)).2
          omega
    intro n
    have := exact_count n
    omega
  have enough := count (bound + (run 0).state.unknowing + 1)
  have limit := bounded (bound + (run 0).state.unknowing + 1)
  omega

variable (env c) in
/-- At most one message is left, and its receiver has no route yet. -/
def Settled : Prop :=
  c.tokens.length ≤ 1 ∧ ∀ hello ∈ c.tokens, ∀ party, Genuine env c.state party hello.data →
    ¬ c.state.Knows party

/-- The last message of a settled exchange is not answered. -/
theorem Settled.step (settled : Settled env c) (valid : Valid env c)
    (step : (system env arrival).Step c d) : d.state.sent = c.state.sent ∧ Settled env d := by
  obtain ⟨party, rest, produced, delivers⟩ := delivers_of_step valid step
  obtain ⟨hello, perm, genuine⟩ := delivers.tokens
  have unknown := settled.2 hello (perm.mem_iff.mpr List.mem_cons_self) party genuine
  have count := perm.length_eq
  rw [List.length_cons] at count
  have last : rest = [] := by
    have few := settled.1
    exact List.length_eq_zero_iff.mp (by omega)
  cases delivers.delivered with
  | absorbed _ sent =>
      have empty : d.tokens = [] := by rw [delivers.produces, last, List.nil_append]
      refine ⟨sent, ?_, ?_⟩
      · rw [empty, List.length_nil]
        exact Nat.zero_le 1
      · rw [empty]
        exact fun _ member => absurd member List.not_mem_nil
  | answered known => exact absurd known unknown

/-- With no more messages than unknowing nodes, an answered message was the only
one, and the answer goes to a node without a route. -/
theorem sent_or_settled (valid : Valid env c) (few : c.tokens.length ≤ c.state.unknowing)
    (step : (system env arrival).Step c d) :
    d.state.sent = c.state.sent ∨ (d.state.sent = c.state.sent + 1 ∧ Settled env d) := by
  have validNext := valid.step step
  obtain ⟨party, rest, produced, delivers⟩ := delivers_of_step valid step
  obtain ⟨hello, perm, genuine⟩ := delivers.tokens
  have count := perm.length_eq
  rw [List.length_cons] at count
  cases delivers.delivered with
  | absorbed _ sent => exact .inl sent
  | @answered reply known sent atPeer =>
      have unknowing := c.state.unknowing_eq party
      rw [if_pos known] at unknowing
      have unknown : ¬ c.state.Knows party.peer := by
        intro knows
        rw [if_pos knows] at unknowing
        omega
      have last : rest = [] := by
        rw [if_neg unknown] at unknowing
        exact List.length_eq_zero_iff.mp (by omega)
      have tokens : d.tokens = [reply] := by rw [delivers.produces, last, List.nil_append]
      refine .inr ⟨sent, ?_, ?_⟩
      · rw [tokens, List.length_singleton]
      · rw [tokens]
        intro other member receiver atReceiver knows
        obtain rfl := List.mem_singleton.mp member
        obtain rfl := (atPeer.grows delivers.grows).party_eq validNext.pair atReceiver
        exact unknown (delivers.other.mp knows)

/-- **When an exchange comes to an end.** For two nodes with valid certificates,
any sessions, routes and messages between them in flight: only finitely many
further messages are sent exactly when there are no more messages than nodes
without a route to the other one. -/
theorem quiesces_iff (valid : Valid env c) :
    Quiesces env arrival c ↔ c.tokens.length ≤ c.state.unknowing := by
  constructor
  · intro quiesces
    by_contra more
    exact not_quiesces valid (Nat.lt_of_not_le more) quiesces
  · intro few run starts steps
    have holds := infinite_run_preserves steps
      (fun d => Valid env d ∧ d.tokens.length ≤ d.state.unknowing ∧
        (d.state.sent = c.state.sent ∨
          (d.state.sent = c.state.sent + 1 ∧ Settled env d)))
      (fun d e holds step => ?_) (by rw [starts]; exact ⟨valid, few, .inl rfl⟩)
    · refine ⟨c.state.sent + 1, ?_⟩
      intro n
      rcases (holds n).2.2 with same | ⟨one, _⟩ <;> omega
    · obtain ⟨valid, few, before⟩ := holds
      refine ⟨valid.step step, ?_, ?_⟩
      · have balance := (step_balance valid step).1
        omega
      · rcases before with same | ⟨one, settled⟩
        · rw [← same]
          exact sent_or_settled valid few step
        · obtain ⟨sent, settled⟩ := settled.step valid step
          exact .inr ⟨sent.trans one, settled⟩

/-- Two nodes that have found each other. -/
def knowingPair : Exchange (UInt8 × UInt8) UInt8 UInt8 where
  node
    | .a => { newNode 1 with routingTable := ⟨AList.singleton [2] (loopback, 10)⟩ }
    | .b => { newNode 2 with routingTable := ⟨AList.singleton [1] (loopback, 10)⟩ }
  sent := 0

theorem validPair_knowingPair : ValidPair .plain knowingPair where
  distinct := by decide
  certificate := fun party => by cases party <;> exact ⟨_, rfl, by decide⟩
  wraps := fun party => plain_wraps (by cases party <;> decide)

/-- A hello message of node A to node B. -/
def helloToB : InFlightHello where
  data := HelloExternals.plain.packagePkg (internalConstruct .plain (newNode 1)) [2]
  lastHop := directHop

/-- Two nodes that know each other answer a single hello message for ever. -/
theorem hello_answered_for_ever :
    Valid .plain ⟨knowingPair, [helloToB]⟩ ∧
      ¬ Quiesces .plain (fun _ => directHop) ⟨knowingPair, [helloToB]⟩ := by
  have valid : Valid HelloExternals.plain ⟨knowingPair, [helloToB]⟩ :=
    ⟨validPair_knowingPair, List.forall_mem_singleton.mpr
      ⟨.b, validPair_knowingPair.genuine_package .a⟩⟩
  exact ⟨valid, not_quiesces valid (by decide)⟩

/-- Between two new nodes a single hello message comes to its end. -/
theorem quiesces_iff_newPair :
    Quiesces .plain (fun _ => directHop) ⟨newPair, [helloToB]⟩ ↔ 1 ≤ 2 :=
  have valid : Valid HelloExternals.plain ⟨newPair, [helloToB]⟩ :=
    ⟨validPair_newPair, List.forall_mem_singleton.mpr
      ⟨.b, validPair_newPair.genuine_package .a⟩⟩
  quiesces_iff valid

/-! ## One message between two new nodes -/

variable (env) in
/-- Node A has just sent a hello message to node B. -/
def oneHello (exchange : Exchange X509 X509Store PublicKey) (lastHop : LastHop) :
    Config (Exchange X509 X509Store PublicKey) InFlightHello :=
  ⟨exchange, [⟨env.packagePkg (internalConstruct env (exchange.node .a))
    (exchange.node .b).deviceId, lastHop⟩]⟩

variable (env arrival c) in
/-- Once no message is in flight, each node has a route to the other one. -/
def DiscoverEachOther : Prop :=
  ∀ d, (system env arrival).Run c d → d.tokens = [] → d.state.Knows .a ∧ d.state.Knows .b

/-- Node B takes the message and does not reply. -/
theorem oneHello_step {exchange : Exchange X509 X509Store PublicKey} {lastHop : LastHop}
    (valid : ValidPair env exchange)
    (empty : ∀ party, (exchange.node party).routingTable = ⟨∅⟩)
    (step : (system env arrival).Step (oneHello env exchange lastHop) d) :
    d.tokens = [] ∧ d.state.Knows .b ∧ ¬ d.state.Knows .a := by
  have genuineB := valid.genuine_package .a
  have validStart : Valid env (oneHello env exchange lastHop) :=
    ⟨valid, List.forall_mem_singleton.mpr ⟨.b, genuineB⟩⟩
  have unknown : ∀ party, ¬ exchange.Knows party := by
    intro party knows
    rw [Exchange.Knows, empty party] at knows
    cases knows
  obtain ⟨party, rest, produced, delivers⟩ := delivers_of_step validStart step
  obtain ⟨hello, perm, genuine⟩ := delivers.tokens
  obtain ⟨rfl, rfl⟩ := List.cons_eq_cons.mp (List.singleton_perm.mp perm)
  obtain rfl := genuineB.party_eq valid genuine
  refine ⟨?_, delivers.learnt, fun knows => unknown .a (delivers.other.mp knows)⟩
  cases delivers.delivered with
  | absorbed => exact delivers.produces
  | answered known => exact absurd known (unknown .b)

/-- **One hello message is not enough.** Between two nodes with empty routing
tables, the message of A teaches B a route to A, and no message ever teaches A a
route to B. -/
theorem one_hello_not_mutual {exchange : Exchange X509 X509Store PublicKey}
    (valid : ValidPair env exchange)
    (empty : ∀ party, (exchange.node party).routingTable = ⟨∅⟩) (lastHop : LastHop) :
    ¬ DiscoverEachOther env arrival (oneHello env exchange lastHop) := by
  intro discover
  have validStart : Valid env (oneHello env exchange lastHop) :=
    ⟨valid, List.forall_mem_singleton.mpr ⟨.b, valid.genuine_package .a⟩⟩
  obtain ⟨d, step⟩ := validStart.enabled arrival (List.cons_ne_nil _ _)
  obtain ⟨quiet, -, unknown⟩ := oneHello_step valid empty step
  exact unknown (discover d (.single step) quiet).1

/-- Node 2 takes the message of node 1 and keeps silent. -/
theorem hello_not_answered :
    ValidPair .plain newPair ∧ (∀ party, (newPair.node party).routingTable = ⟨∅⟩) ∧
    ∃ d, (system .plain fun _ => directHop).Run (oneHello .plain newPair directHop) d ∧
      d.tokens = [] ∧ d.state.Knows .b ∧ ¬ d.state.Knows .a := by
  have executed : ((system .plain fun _ => directHop).exec [0]
      (oneHello .plain newPair directHop)).map (fun d =>
        (d.tokens, decide (d.state.Knows .b), decide (d.state.Knows .a))) =
      some ([], true, false) := by
    decide +kernel
  obtain ⟨d, run, content⟩ := Option.map_eq_some_iff.mp executed
  obtain ⟨tokens, knows⟩ := Prod.mk.inj content
  obtain ⟨knowsB, knowsA⟩ := Prod.mk.inj knows
  refine ⟨validPair_newPair, fun party => by cases party <;> rfl, d, run_of_exec run, tokens, ?_⟩
  exact ⟨of_decide_eq_true knowsB, of_decide_eq_false knowsA⟩

theorem one_hello_not_mutual_newPair :
    ¬ DiscoverEachOther .plain (fun _ => directHop) (oneHello .plain newPair directHop) :=
  one_hello_not_mutual validPair_newPair (fun party => by cases party <;> rfl) directHop

end Step

end HelloExchange

end P2PFileSync
