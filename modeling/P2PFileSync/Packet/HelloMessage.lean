import Mathlib.Data.List.MinMax
import P2PFileSync.DataStruct.InstancePool
import P2PFileSync.Packet.WireCodec
import P2PFileSync.PeerSession
import P2PFileSync.ServerContext

/-!
# Handling a hello message

`_handler_impl<ProtoHelloMessage>::internal_handle` makes sure that the sender
has a session, for which the certificate in the message must verify, and then
updates the route to the sender.

A message of a peer that already has a session is used without a look at its
certificate. `changes_verified_iff` says exactly which messages change a node
only with a verified certificate.

The route of a sender is the one of the smallest ttl among its messages
(`route_handleAll`). The ttl counts down on the way, so this is the route over
the most hops: the one over the fewest is stored only if no other message is
accepted (`fewestHops_iff`).
-/

set_option autoImplicit false

namespace P2PFileSync

/-- What the handling of hello messages calls outside the repository.
`package_pkg` is declared in it and not defined. -/
structure HelloExternals (X509 X509Store PublicKey : Type) extends
    X509Api X509 X509Store PublicKey where
  inetNtop : UInt16 → UInt32 → Bytes
  packagePkg : ProtoHelloMessage → Bytes → ProtoMessage
  unpackTo : ProtoAny → ProtoHelloMessage

/-- The parts of `P2PServerContext` that a hello message reads and writes. -/
structure P2PServerContext (X509 X509Store PublicKey : Type) extends ServerContext where
  clientCert : X509
  x509Store : X509Store
  peerPool : InstancePool Bytes (PeerSession PublicKey)

/-- The answer of `internal_handle`, the server afterwards, and the arguments of
its call of `send_pkg`. -/
structure HelloResult (X509 X509Store PublicKey : Type) where
  handled : Bool
  server : P2PServerContext X509 X509Store PublicKey
  sent : Option (ProtoMessage × IPAddress)

/-- The arguments of one call of `internal_handle`. -/
structure HelloCall where
  message : ProtoHelloMessage
  prevPort : UInt16
  clientAddress : SockaddrIn
  ttl : UInt32
  deriving DecidableEq, Repr

section Handle

variable {X509 X509Store PublicKey : Type} (env : HelloExternals X509 X509Store PublicKey)
  (server : P2PServerContext X509 X509Store PublicKey)

/-- `internal_construct`. -/
def internalConstruct : ProtoHelloMessage where
  senderId := server.deviceId
  x509Certificate := env.i2dX509 server.clientCert

/-- The first part of `internal_handle`: the server once the sender has a
session, or `none` where it gets none. -/
def updateSession (message : ProtoHelloMessage) :
    Option (P2PServerContext X509 X509Store PublicKey) :=
  match server.peerPool.getInstance message.senderId with
  | some _ => some server
  | none =>
      match PeerSession.newSession env.toX509Api server.x509Store message.x509Certificate with
      | none => none
      | some newSession =>
          some { server with
            peerPool := (server.peerPool.addInstance message.senderId newSession).2 }

/-- The second part of `internal_handle`. -/
def updateRoute (message : ProtoHelloMessage) (newIp : IPAddress) (ttl : UInt32) :
    HelloResult X509 X509Store PublicKey :=
  if server.routingTable.canDelivered message.senderId = true then
    { handled := true
      server := { server with
        routingTable := (server.routingTable.tryUpdateTable message.senderId newIp ttl).2 }
      sent := some (env.packagePkg (internalConstruct env server) message.senderId, newIp) }
  else
    { handled := true
      server := { server with
        routingTable := (server.routingTable.addNewRoute message.senderId newIp ttl).2 }
      sent := none }

/-- `internal_handle`. -/
def internalHandle (message : ProtoHelloMessage) (prevPort : UInt16) (clientAddress : SockaddrIn)
    (ttl : UInt32) : HelloResult X509 X509Store PublicKey :=
  match updateSession env server message with
  | none => { handled := false, server := server, sent := none }
  | some server =>
      updateRoute env server message
        (IPAddress.ofSockaddrIn env.inetNtop clientAddress prevPort) ttl

/-- One call, with its arguments as a record. -/
def HelloCall.handle (call : HelloCall) : HelloResult X509 X509Store PublicKey :=
  internalHandle env server call.message call.prevPort call.clientAddress call.ttl

/-- The entry a call offers to the routing table. -/
def HelloCall.entry (call : HelloCall) : IPAddress × UInt32 :=
  (IPAddress.ofSockaddrIn env.inetNtop call.clientAddress call.prevPort, call.ttl)

/-- The server after some calls, one after another. -/
def handleAll (calls : List HelloCall) : P2PServerContext X509 X509Store PublicKey :=
  calls.foldl (fun server call => (call.handle env server).server) server

/-- The entry of a destination after another one was offered: the one with the
smaller ttl, and the stored one where the ttls are equal. -/
def offered (stored : Option (IPAddress × UInt32)) (entry : IPAddress × UInt32) :
    IPAddress × UInt32 :=
  match stored with
  | none => entry
  | some stored => if entry.2 < stored.2 then entry else stored

/-- The sender has a session, or gets one for its certificate. -/
def Accepts (message : ProtoHelloMessage) : Prop :=
  (server.peerPool.getInstance message.senderId).isSome = true ∨
    env.Verifies server.x509Store message.x509Certificate

end Handle

/-! ## Nodes for the examples -/

/-- The text of an IPv4 address, whose first byte is the lowest one. -/
def dottedQuad (addr : UInt32) : Bytes :=
  decimalText (addr % 256).toNat ++ 46 :: decimalText (addr / 256 % 256).toNat ++ 46 ::
    decimalText (addr / 65536 % 256).toNat ++ 46 :: decimalText (addr / 16777216).toNat

namespace HelloExternals

/-- Certificates of a key and an issuer, one byte each; a store trusts one
issuer. A hello message is packed into the payload of a message. -/
def plain : HelloExternals (UInt8 × UInt8) UInt8 UInt8 where
  d2iX509
    | key :: issuer :: _ => some (key, issuer)
    | _ => none
  i2dX509 cert := [cert.1, cert.2]
  x509VerifyCert store cert := cert.2 = store
  x509GetPubkey cert := cert.1
  inetNtop _ addr := dottedQuad addr
  packagePkg hello receiver :=
    { receiver := receiver
      packetType := .HELLO
      payload := some { typeUrl := [116], value := Wire.encode (WireCodec.helloFields hello) } }
  unpackTo payload := (Wire.parseWith WireCodec.setHello {} payload.value).1

end HelloExternals

/-- A node without sessions and routes, whose certificate the issuer 9 made. -/
def newNode (id : UInt8) : P2PServerContext (UInt8 × UInt8) UInt8 UInt8 where
  toServerContext := .create [id] 3324 4
  clientCert := (id, 9)
  x509Store := 9
  peerPool := ⟨∅⟩

/-- A call for a hello message of peer 1 with a certificate of the given issuer. -/
def helloFrom (issuer : UInt8) (prevPort : UInt16) (ttl : UInt32) : HelloCall where
  message := { senderId := [1], x509Certificate := [1, issuer] }
  prevPort := prevPort
  clientAddress := loopbackSin
  ttl := ttl

/-! ## What one message does -/

section OneMessage

variable {X509 X509Store PublicKey : Type} {env : HelloExternals X509 X509Store PublicKey}
  {server : P2PServerContext X509 X509Store PublicKey} {message : ProtoHelloMessage}

theorem updateSession_of_known
    (known : (server.peerPool.getInstance message.senderId).isSome = true) :
    updateSession env server message = some server := by
  obtain ⟨session, found⟩ := Option.isSome_iff_exists.mp known
  rw [updateSession, found]

/-- The certificate of an accepted message whose sender is unknown gives a
session. -/
theorem Accepts.exists_newSession (accepts : Accepts env server message)
    (unknown : server.peerPool.getInstance message.senderId = none) :
    ∃ session, PeerSession.newSession env.toX509Api server.x509Store message.x509Certificate =
      some session := by
  have verified : env.Verifies server.x509Store message.x509Certificate := by
    rcases accepts with session | verified
    · rw [unknown] at session
      cases session
    · exact verified
  exact Option.isSome_iff_exists.mp (PeerSession.isSome_newSession_iff.mpr verified)

/-- Where a session is made or found, only the peer pool changes. -/
theorem updateSession_of_accepts (accepts : Accepts env server message) :
    ∃ peerPool, updateSession env server message = some { server with peerPool := peerPool } ∧
      (peerPool.getInstance message.senderId).isSome = true ∧
      ∀ other, other ≠ message.senderId →
        peerPool.getInstance other = server.peerPool.getInstance other := by
  cases known : server.peerPool.getInstance message.senderId with
  | some session =>
      have isSome : (server.peerPool.getInstance message.senderId).isSome = true := by
        rw [known, Option.isSome_some]
      exact ⟨server.peerPool, updateSession_of_known isSome, isSome, fun _ _ => rfl⟩
  | none =>
      obtain ⟨session, made⟩ := accepts.exists_newSession known
      refine ⟨(server.peerPool.addInstance message.senderId session).2,
        by simp only [updateSession, known, made], ?_, ?_⟩
      · exact InstancePool.isSome_getInstance_addInstance _ _ _
      · intro other different
        exact InstancePool.getInstance_addInstance_ne _ different _

variable (env server message) in
/-- What the second part does. -/
theorem updateRoute_eq (newIp : IPAddress) (ttl : UInt32) :
    ∃ table, updateRoute env server message newIp ttl =
        { handled := true
          server := { server with routingTable := table }
          sent := if (server.routingTable.route message.senderId).isSome then
            some (env.packagePkg (internalConstruct env server) message.senderId, newIp)
          else none } ∧
      table.route message.senderId =
        some (offered (server.routingTable.route message.senderId) (newIp, ttl)) ∧
      ∀ other, other ≠ message.senderId →
        table.route other = server.routingTable.route other := by
  cases known : server.routingTable.route message.senderId with
  | none =>
      refine ⟨(server.routingTable.addNewRoute message.senderId newIp ttl).2, ?_, ?_, ?_⟩
      · simp only [updateRoute, RoutingTable.canDelivered_eq_isSome, known, Option.isSome_none,
          Bool.false_eq_true, if_false]
      · exact RoutingTable.route_addNewRoute_of_none known newIp ttl
      · intro other different
        exact RoutingTable.route_addNewRoute_ne different newIp ttl
  | some entry =>
      refine ⟨(server.routingTable.tryUpdateTable message.senderId newIp ttl).2, ?_, ?_, ?_⟩
      · simp only [updateRoute, RoutingTable.canDelivered_eq_isSome, known, Option.isSome_some,
          if_true]
      · exact RoutingTable.route_tryUpdateTable_of_some known newIp ttl
      · intro other different
        exact RoutingTable.route_tryUpdateTable_ne different newIp ttl

variable (env server) in
/-- What an accepted message leaves: its sender has a session and the better one
of the two routes, and nothing else has changed. -/
structure Handled (call : HelloCall) (after : P2PServerContext X509 X509Store PublicKey) :
    Prop where
  same : after =
    { server with peerPool := after.peerPool, routingTable := after.routingTable }
  session : (after.peerPool.getInstance call.message.senderId).isSome = true
  known : (server.peerPool.getInstance call.message.senderId).isSome = true →
    after.peerPool = server.peerPool
  sessions : ∀ other, other ≠ call.message.senderId →
    after.peerPool.getInstance other = server.peerPool.getInstance other
  route : after.routingTable.route call.message.senderId =
    some (offered (server.routingTable.route call.message.senderId) (call.entry env))
  routes : ∀ other, other ≠ call.message.senderId →
    after.routingTable.route other = server.routingTable.route other

variable {call : HelloCall}

/-- An accepted message is answered when its sender already had a route. -/
theorem handle_of_accepts (accepts : Accepts env server call.message) :
    Handled env server call (call.handle env server).server ∧
      (call.handle env server).handled = true ∧
      (call.handle env server).sent =
        if (server.routingTable.route call.message.senderId).isSome then
          some (env.packagePkg (internalConstruct env server) call.message.senderId,
            (call.entry env).1)
        else none := by
  obtain ⟨peerPool, updated, session, sessions⟩ := updateSession_of_accepts accepts
  obtain ⟨table, outcome, route, routes⟩ :=
    updateRoute_eq env { server with peerPool := peerPool } call.message (call.entry env).1
      call.ttl
  have result : call.handle env server =
      updateRoute env { server with peerPool := peerPool } call.message (call.entry env).1
        call.ttl := by
    rw [HelloCall.handle, internalHandle, updated]
    rfl
  rw [result, outcome]
  refine ⟨⟨rfl, session, ?_, sessions, route, routes⟩, rfl, rfl⟩
  intro known
  have unchanged := updated.symm.trans (updateSession_of_known known)
  have samePool : peerPool = server.peerPool :=
    congrArg P2PServerContext.peerPool (Option.some.inj unchanged)
  exact samePool

/-- A message that is not accepted changes nothing. -/
theorem handle_of_not_accepts (refused : ¬ Accepts env server call.message) :
    call.handle env server = { handled := false, server := server, sent := none } := by
  have unknown : server.peerPool.getInstance call.message.senderId = none := by
    by_contra known
    exact refused (.inl (Option.isSome_iff_ne_none.mpr known))
  have noSession :
      PeerSession.newSession env.toX509Api server.x509Store call.message.x509Certificate =
        none := by
    by_contra made
    exact refused (.inr (PeerSession.isSome_newSession_iff.mp (Option.isSome_iff_ne_none.mpr made)))
  have noServer : updateSession env server call.message = none := by
    simp only [updateSession, unknown, noSession]
  rw [HelloCall.handle, internalHandle, noServer]

/-! ## What any number of messages does -/

variable (server) in
/-- A later state of a server: sessions and routes may have been added, and no
peer has lost its session or its route. -/
structure Grows (after : P2PServerContext X509 X509Store PublicKey) : Prop where
  same : after =
    { server with peerPool := after.peerPool, routingTable := after.routingTable }
  session : ∀ id, (server.peerPool.getInstance id).isSome = true →
    (after.peerPool.getInstance id).isSome = true
  route : ∀ id, (server.routingTable.route id).isSome = true →
    (after.routingTable.route id).isSome = true

theorem Grows.refl (server : P2PServerContext X509 X509Store PublicKey) : Grows server server where
  same := rfl
  session := fun _ known => known
  route := fun _ known => known

theorem Grows.trans {next after : P2PServerContext X509 X509Store PublicKey}
    (first : Grows server next) (second : Grows next after) : Grows server after where
  same := by
    have same := second.same
    rw [first.same] at same
    exact same
  session := fun id known => second.session id (first.session id known)
  route := fun id known => second.route id (first.route id known)

theorem Grows.deviceId {after : P2PServerContext X509 X509Store PublicKey}
    (grows : Grows server after) : after.deviceId = server.deviceId :=
  congrArg (fun context => context.deviceId) grows.same

theorem Grows.clientCert {after : P2PServerContext X509 X509Store PublicKey}
    (grows : Grows server after) : after.clientCert = server.clientCert :=
  congrArg (fun context => context.clientCert) grows.same

theorem Grows.x509Store {after : P2PServerContext X509 X509Store PublicKey}
    (grows : Grows server after) : after.x509Store = server.x509Store :=
  congrArg (fun context => context.x509Store) grows.same

/-- A server introduces itself in the same way for ever. -/
theorem Grows.internalConstruct {after : P2PServerContext X509 X509Store PublicKey}
    (grows : Grows server after) : internalConstruct env after = internalConstruct env server := by
  unfold P2PFileSync.internalConstruct
  rw [grows.deviceId, grows.clientCert]

theorem Handled.grows {after : P2PServerContext X509 X509Store PublicKey}
    (handled : Handled env server call after) : Grows server after where
  same := handled.same
  session := fun id known => by
    by_cases sender : id = call.message.senderId
    · rw [sender]
      exact handled.session
    · rw [handled.sessions id sender]
      exact known
  route := fun id known => by
    by_cases sender : id = call.message.senderId
    · rw [sender, handled.route, Option.isSome_some]
    · rw [handled.routes id sender]
      exact known

variable (env) in
theorem grows_handle (server : P2PServerContext X509 X509Store PublicKey) (call : HelloCall) :
    Grows server (call.handle env server).server := by
  by_cases accepts : Accepts env server call.message
  · exact (handle_of_accepts accepts).1.grows
  · rw [handle_of_not_accepts accepts]
    exact .refl server

variable (env) in
theorem grows_handleAll (server : P2PServerContext X509 X509Store PublicKey)
    (calls : List HelloCall) : Grows server (handleAll env server calls) := by
  induction calls generalizing server with
  | nil => exact .refl server
  | cons call calls ih => exact (grows_handle env server call).trans (ih _)

/-- A sender that is accepted once is accepted for ever. -/
theorem Accepts.grows {after : P2PServerContext X509 X509Store PublicKey}
    (accepts : Accepts env server message) (grows : Grows server after) :
    Accepts env after message := by
  rcases accepts with session | verified
  · exact .inl (grows.session _ session)
  · refine .inr ?_
    rw [grows.x509Store]
    exact verified

theorem handleAll_concat (calls : List HelloCall) (call : HelloCall) :
    handleAll env server (calls ++ [call]) =
      (call.handle env (handleAll env server calls)).server := by
  simp only [handleAll, List.foldl_append, List.foldl_cons, List.foldl_nil]

theorem handleAll_append (first second : List HelloCall) :
    handleAll env server (first ++ second) = handleAll env (handleAll env server first) second :=
  List.foldl_append

/-- After an accepted message every later one of its sender is accepted, whatever
its certificate. -/
theorem accepts_after_first {first : HelloCall} {calls : List HelloCall}
    (accepts : Accepts env server first.message) (same : message.senderId = first.message.senderId) :
    Accepts env (handleAll env server (first :: calls)) message := by
  have session := (handle_of_accepts accepts).1.session
  exact .inl (same ▸ (grows_handleAll env (first.handle env server).server calls).session _ session)

/-- **The route of a sender.** After an accepted message of a sender that had no
route, and any later ones, its route is the one offered with the smallest ttl,
the earliest one where several are smallest. -/
theorem route_handleAll {sender : Bytes} {first : HelloCall} {calls : List HelloCall}
    (unknown : server.routingTable.route sender = none)
    (sent : ∀ call ∈ first :: calls, call.message.senderId = sender)
    (accepts : Accepts env server first.message) :
    (handleAll env server (first :: calls)).routingTable.route sender =
      ((first :: calls).argmin fun call => call.ttl.toNat).map (HelloCall.entry env) := by
  have firstSent := sent first List.mem_cons_self
  induction calls using List.reverseRecOn with
  | nil =>
      have step := (handle_of_accepts accepts).1.route
      rw [firstSent, unknown] at step
      exact step
  | append_singleton calls call ih =>
      have last : call ∈ first :: (calls ++ [call]) :=
        List.mem_cons_of_mem _ (List.mem_append_right _ (List.mem_singleton_self call))
      have before := ih fun earlier member => sent earlier
        (List.mem_cons.mpr ((List.mem_cons.mp member).imp_right (List.mem_append_left _)))
      have accepted : Accepts env (handleAll env server (first :: calls)) call.message :=
        accepts_after_first accepts ((sent call last).trans firstSent.symm)
      have step := (handle_of_accepts accepted).1.route
      rw [sent call last, before] at step
      rw [← List.cons_append, handleAll_concat, step, List.argmin_concat]
      cases (first :: calls).argmin fun call => call.ttl.toNat with
      | none => rfl
      | some earlier =>
          simp only [Option.map_some, offered, HelloCall.entry, UInt32.lt_iff_toNat_lt]
          split <;> rfl

/-! ## Changes without a verified certificate -/

variable (server) in
/-- The server has neither a session nor a route. -/
def Fresh : Prop := server.peerPool = ⟨∅⟩ ∧ server.routingTable = ⟨∅⟩

variable (env server) in
/-- The server after any messages, from a server without sessions and routes. -/
def Reachable : Prop := ∃ start calls, Fresh start ∧ server = handleAll env start calls

/-- A peer with a session has a route. -/
theorem Reachable.route_of_session (reachable : Reachable env server) (id : Bytes)
    (session : (server.peerPool.getInstance id).isSome = true) :
    (server.routingTable.route id).isSome = true := by
  obtain ⟨start, calls, ⟨noSession, _⟩, rfl⟩ := reachable
  induction calls using List.reverseRecOn with
  | nil =>
      have none : start.peerPool.getInstance id = none := by
        rw [noSession]
        rfl
      rw [handleAll, List.foldl_nil, none] at session
      cases session
  | append_singleton calls call ih =>
      rw [handleAll_concat] at session ⊢
      by_cases accepts : Accepts env (handleAll env start calls) call.message
      · have handled := (handle_of_accepts accepts).1
        by_cases sender : id = call.message.senderId
        · rw [sender, handled.route, Option.isSome_some]
        · rw [handled.sessions id sender] at session
          rw [handled.routes id sender]
          exact ih session
      · rw [handle_of_not_accepts accepts] at session ⊢
        exact ih session

variable (env server call) in
/-- The message changes the peer pool or the routing entry of its sender. -/
def Changes : Prop :=
  (call.handle env server).server.peerPool ≠ server.peerPool ∨
    (call.handle env server).server.routingTable.route call.message.senderId ≠
      server.routingTable.route call.message.senderId

theorem accepts_of_changes (changes : Changes env server call) :
    Accepts env server call.message := by
  by_contra refused
  rw [Changes, handle_of_not_accepts refused] at changes
  rcases changes with pool | entry
  · exact pool rfl
  · exact entry rfl

/-- A message of a peer with a session and a route changes the server exactly
when its ttl is smaller than the one stored. -/
theorem changes_iff_of_session {entry : IPAddress × UInt32}
    (session : (server.peerPool.getInstance call.message.senderId).isSome = true)
    (known : server.routingTable.route call.message.senderId = some entry) :
    Changes env server call ↔ call.ttl < entry.2 := by
  have accepts : Accepts env server call.message := .inl session
  have handled := (handle_of_accepts accepts).1
  have route : (call.handle env server).server.routingTable.route call.message.senderId =
      some (if call.ttl < entry.2 then call.entry env else entry) := by
    rw [handled.route, known]
    rfl
  rw [Changes, handled.known session, route, known]
  constructor
  · rintro (pool | changed)
    · exact absurd rfl pool
    · by_contra notSmaller
      exact changed (by rw [if_neg notSmaller])
  · intro smaller
    refine .inr ?_
    intro same
    rw [if_pos smaller] at same
    have ttl : call.ttl = entry.2 := congrArg Prod.snd (Option.some.inj same)
    rw [ttl] at smaller
    exact UInt32.lt_irrefl _ smaller

/-- **When a change needs a verified certificate.** In every reachable state and
for every message: that a change implies a verified certificate holds exactly
when the certificate verifies, or the sender has no session yet, or the stored
route has a ttl at most that of the message. -/
theorem changes_verified_iff (reachable : Reachable env server) (call : HelloCall) :
    (Changes env server call → env.Verifies server.x509Store call.message.x509Certificate) ↔
      env.Verifies server.x509Store call.message.x509Certificate ∨
        server.peerPool.getInstance call.message.senderId = none ∨
        ∃ entry, server.routingTable.route call.message.senderId = some entry ∧
          entry.2 ≤ call.ttl := by
  constructor
  · intro guarded
    cases known : server.peerPool.getInstance call.message.senderId with
    | none => exact .inr (.inl rfl)
    | some _ =>
        have session : (server.peerPool.getInstance call.message.senderId).isSome = true := by
          rw [known, Option.isSome_some]
        obtain ⟨entry, route⟩ :=
          Option.isSome_iff_exists.mp (reachable.route_of_session _ session)
        by_cases smaller : call.ttl < entry.2
        · exact .inl (guarded ((changes_iff_of_session session route).mpr smaller))
        · exact .inr (.inr ⟨entry, route, UInt32.not_lt.mp smaller⟩)
  · rintro (verified | unknown | ⟨entry, route, smaller⟩) changes
    · exact verified
    · rcases accepts_of_changes changes with session | verified
      · rw [unknown] at session
        cases session
      · exact verified
    · rcases accepts_of_changes changes with session | verified
      · have less := (changes_iff_of_session session route).mp changes
        exact absurd smaller (UInt32.not_le.mpr less)
      · exact verified

/-- A second message of peer 1, whose certificate does not verify, redirects the
traffic for the peer: the certificate is checked for a new session only. -/
theorem forged_hello_redirects :
    ∃ server, ∃ call : HelloCall, Reachable .plain server ∧
      Changes HelloExternals.plain server call ∧
      ¬ HelloExternals.plain.Verifies server.x509Store call.message.x509Certificate := by
  refine ⟨handleAll .plain (newNode 2) [helloFrom 9 3324 5], helloFrom 8 4000 3,
    ⟨newNode 2, _, ⟨rfl, rfl⟩, rfl⟩, .inr (by decide), ?_⟩
  rintro ⟨cert, parsed, verified⟩
  cases parsed
  exact absurd verified (by decide)

/-- After a message with ttl 5, one with ttl 7 is ignored, whatever its
certificate. -/
theorem changes_verified_iff_longer :
    Reachable HelloExternals.plain
        (handleAll .plain (newNode 2) [helloFrom 9 3324 5]) ∧
      ((Changes HelloExternals.plain (handleAll .plain (newNode 2) [helloFrom 9 3324 5])
          (helloFrom 8 4000 7) →
        HelloExternals.plain.Verifies 9 (helloFrom 8 4000 7).message.x509Certificate) ↔
      HelloExternals.plain.Verifies 9 (helloFrom 8 4000 7).message.x509Certificate ∨
        (handleAll .plain (newNode 2) [helloFrom 9 3324 5]).peerPool.getInstance [1] = none ∨
        ∃ entry, (handleAll .plain (newNode 2) [helloFrom 9 3324 5]).routingTable.route [1] =
          some entry ∧ entry.2 ≤ 7) :=
  have reachable : Reachable HelloExternals.plain
      (handleAll .plain (newNode 2) [helloFrom 9 3324 5]) :=
    ⟨newNode 2, _, ⟨rfl, rfl⟩, rfl⟩
  ⟨reachable, changes_verified_iff reachable (helloFrom 8 4000 7)⟩

theorem handleAll_of_not_accepts {calls : List HelloCall}
    (refused : ∀ call ∈ calls, ¬ Accepts env server call.message) :
    handleAll env server calls = server := by
  induction calls with
  | nil => rfl
  | cons call calls ih =>
      have first := handle_of_not_accepts (refused call List.mem_cons_self)
      rw [handleAll, List.foldl_cons, first]
      exact ih fun later member => refused later (List.mem_cons_of_mem _ member)

end OneMessage

/-! ## Messages over several paths -/

/-- A hello message that was sent along a path, and what its receiver sees of
the last hop. -/
structure HelloArrival where
  message : ProtoHelloMessage
  sent : SignedProtoMessage
  path : List UInt16
  prevPort : UInt16
  clientAddress : SockaddrIn
  deriving DecidableEq, Repr

namespace HelloArrival

def hops (arrival : HelloArrival) : ℕ := arrival.path.length

/-- The call of the handler: its ttl is the one of the packet received. -/
def call (arrival : HelloArrival) : HelloCall where
  message := arrival.message
  prevPort := arrival.prevPort
  clientAddress := arrival.clientAddress
  ttl := (arrival.sent.forwardedAlong arrival.path).ttl

end HelloArrival

/-- Messages of one sender, sent with the same ttl, that arrived over paths of
different lengths. -/
structure FromOneSender (sender : Bytes) (initialTtl : UInt32)
    (arrivals : List HelloArrival) : Prop where
  sender : ∀ arrival ∈ arrivals, arrival.message.senderId = sender
  initialTtl : ∀ arrival ∈ arrivals, arrival.sent.ttl = initialTtl
  arrives : ∀ arrival ∈ arrivals, arrival.sent.Arrives arrival.path
  hops : (arrivals.map HelloArrival.hops).Nodup

section Paths

variable {X509 X509Store PublicKey : Type} {env : HelloExternals X509 X509Store PublicKey}
  {server : P2PServerContext X509 X509Store PublicKey} {sender : Bytes}
  {initialTtl : UInt32} {arrivals earlier later : List HelloArrival} {first : HelloArrival}

variable (env server sender arrivals) in
/-- The route stored for the sender is the one learnt over the fewest hops. -/
def LearntOverFewestHops : Prop :=
  ∃ arrival ∈ arrivals, (∀ other ∈ arrivals, arrival.hops ≤ other.hops) ∧
    server.routingTable.route sender = some (arrival.call.entry env)

instance : Decidable (LearntOverFewestHops env server sender arrivals) :=
  inferInstanceAs (Decidable (∃ arrival ∈ arrivals, _))

/-- The smaller the ttl on arrival, the longer was the path. -/
theorem FromOneSender.hops_le (oneSender : FromOneSender sender initialTtl arrivals)
    {first second : HelloArrival} (firstMember : first ∈ arrivals)
    (secondMember : second ∈ arrivals) :
    first.hops ≤ second.hops ↔ second.call.ttl.toNat ≤ first.call.ttl.toNat := by
  have firstSum := (oneSender.arrives first firstMember).ttl_add_length
  have secondSum := (oneSender.arrives second secondMember).ttl_add_length
  rw [oneSender.initialTtl first firstMember] at firstSum
  rw [oneSender.initialTtl second secondMember] at secondSum
  unfold HelloArrival.hops HelloArrival.call
  dsimp only
  omega

/-- The messages up to the first accepted one leave no trace, and the stored
route is the one of the most hops among the others. -/
theorem FromOneSender.route
    (oneSender : FromOneSender sender initialTtl (earlier ++ first :: later))
    (unknown : server.routingTable.route sender = none)
    (refused : ∀ other ∈ earlier, ¬ Accepts env server other.message)
    (accepts : Accepts env server first.message) :
    ∃ longest ∈ first :: later, (∀ other ∈ first :: later, other.hops ≤ longest.hops) ∧
      (handleAll env server
          ((earlier ++ first :: later).map HelloArrival.call)).routingTable.route sender =
        some (longest.call.entry env) := by
  have unchanged : handleAll env server (earlier.map HelloArrival.call) = server :=
    handleAll_of_not_accepts (List.forall_mem_map.mpr refused)
  have route : (handleAll env server
      ((first :: later).map HelloArrival.call)).routingTable.route sender =
        (((first :: later).map HelloArrival.call).argmin fun call => call.ttl.toNat).map
          (HelloCall.entry env) :=
    route_handleAll unknown (List.forall_mem_map.mpr fun arrival member =>
      oneSender.sender arrival (List.mem_append_right _ member)) accepts
  rw [List.map_append, handleAll_append, unchanged, route]
  cases least : ((first :: later).map HelloArrival.call).argmin fun call => call.ttl.toNat with
  | none => cases List.argmin_eq_none.mp least
  | some call =>
      obtain ⟨longest, member, rfl⟩ := List.mem_map.mp (List.argmin_mem least)
      refine ⟨longest, member, ?_, rfl⟩
      intro other otherMember
      rw [oneSender.hops_le (List.mem_append_right _ otherMember) (List.mem_append_right _ member)]
      exact List.le_of_mem_argmin (f := fun call : HelloCall => call.ttl.toNat)
        (List.mem_map_of_mem otherMember) least

/-- Messages over paths of one length are a single message. -/
theorem FromOneSender.later_eq_nil
    (oneSender : FromOneSender sender initialTtl (earlier ++ first :: later))
    (constant : ∀ other ∈ later, other.hops = first.hops) : later = [] := by
  cases later with
  | nil => rfl
  | cons second rest =>
      have hops := oneSender.hops
      rw [List.map_append, List.map_cons, List.map_cons] at hops
      have distinct := (List.nodup_append.mp hops).2.1
      rw [constant second List.mem_cons_self] at distinct
      exact absurd List.mem_cons_self (List.nodup_cons.mp distinct).1

/-- **When the shortest path wins.** For messages of one sender that arrived over
paths of different lengths and are handled from an empty routing table in any
order: the stored route is the one over the fewest hops exactly when only the
message handled last is accepted and it came over the fewest hops. -/
theorem fewestHops_iff (oneSender : FromOneSender sender initialTtl arrivals)
    (empty : server.routingTable = ⟨∅⟩) :
    LearntOverFewestHops env (handleAll env server (arrivals.map HelloArrival.call)) sender
        arrivals ↔
      ∃ earlier last, arrivals = earlier ++ [last] ∧ Accepts env server last.message ∧
        ∀ other ∈ earlier, ¬ Accepts env server other.message ∧ last.hops ≤ other.hops := by
  classical
  have unknown : server.routingTable.route sender = none := by
    rw [empty]
    rfl
  constructor
  · rintro ⟨shortest, member, fewest, stored⟩
    cases accepted : arrivals.find? fun arrival => Accepts env server arrival.message with
    | none =>
        have refused := List.find?_eq_none.mp accepted
        rw [handleAll_of_not_accepts (List.forall_mem_map.mpr fun arrival listed accepts =>
          refused arrival listed (decide_eq_true accepts)), unknown] at stored
        cases stored
    | some first =>
        obtain ⟨accepts, earlier, later, rfl, refused⟩ :=
          List.find?_eq_some_iff_append.mp accepted
        have refused : ∀ other ∈ earlier, ¬ Accepts env server other.message := fun other listed =>
          of_decide_eq_false ((Bool.not_eq_true' _).mp (refused other listed))
        obtain ⟨longest, listed, longestHops, route⟩ :=
          oneSender.route unknown refused (of_decide_eq_true accepts)
        have ttl : longest.call.ttl = shortest.call.ttl :=
          congrArg Prod.snd (Option.some.inj (route.symm.trans stored))
        have longestIsShortest : longest.hops ≤ shortest.hops := by
          rw [oneSender.hops_le (List.mem_append_right _ listed) member, ttl]
        -- every path from the first accepted one on is as long as the shortest one
        have constant : ∀ other ∈ first :: later, other.hops = shortest.hops := by
          intro other otherListed
          have lower := fewest other (List.mem_append_right _ otherListed)
          have upper := longestHops other otherListed
          omega
        have alone := oneSender.later_eq_nil fun other listed =>
          (constant other (List.mem_cons_of_mem _ listed)).trans
            (constant first List.mem_cons_self).symm
        refine ⟨earlier, first, by rw [alone], of_decide_eq_true accepts, ?_⟩
        intro other otherListed
        refine ⟨refused other otherListed, ?_⟩
        rw [constant first List.mem_cons_self]
        exact fewest other (List.mem_append_left _ otherListed)
  · rintro ⟨earlier, last, rfl, accepts, others⟩
    obtain ⟨longest, member, _, route⟩ :=
      oneSender.route unknown (fun other listed => (others other listed).1) accepts
    obtain rfl := List.mem_singleton.mp member
    refine ⟨longest, List.mem_append_right _ member, ?_, route⟩
    intro other listed
    rcases List.mem_append.mp listed with earlier | same
    · exact (others other earlier).2
    · rw [List.mem_singleton.mp same]

end Paths

/-- A hello message of peer 1, sent with ttl 10 over a path of one hop or of
two. -/
def direct : HelloArrival where
  message := (helloFrom 9 3324 9).message
  sent := { ttl := 10 }
  path := [3324]
  prevPort := 3324
  clientAddress := loopbackSin

def relayed : HelloArrival := { direct with path := [3324, 4000], prevPort := 4000 }

/-- The same path with a certificate that does not verify. -/
def refused : HelloArrival := { relayed with message := (helloFrom 8 4000 8).message }

/-- The route over two hops replaces the one over a single hop. -/
theorem longer_path_stored :
    FromOneSender [1] 10 [direct, relayed] ∧
      (newNode 2).routingTable = ⟨∅⟩ ∧
      ¬ LearntOverFewestHops .plain
        (handleAll .plain (newNode 2) ([direct, relayed].map HelloArrival.call)) [1]
        [direct, relayed] :=
  ⟨⟨by decide, by decide, by decide, by decide⟩, rfl, by decide⟩

/-- The message over two hops is refused, and the one over a single hop, handled
last, gives the route. -/
theorem fewestHops_iff_refused :
    LearntOverFewestHops .plain
      (handleAll .plain (newNode 2) ([refused, direct].map HelloArrival.call)) [1]
      [refused, direct] := by
  have oneSender : FromOneSender [1] 10 [refused, direct] :=
    ⟨by decide, by decide, by decide, by decide⟩
  refine (fewestHops_iff oneSender rfl).mpr
    ⟨[refused], direct, rfl, .inr ⟨(1, 9), rfl, by decide⟩, ?_⟩
  refine List.forall_mem_singleton.mpr ⟨?_, by decide⟩
  rintro (session | ⟨cert, parsed, verified⟩)
  · cases session
  · cases parsed
    exact absurd verified (by decide)

end P2PFileSync
