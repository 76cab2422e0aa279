import P2PFileSync.Packet.HelloThreads

/-!
# Where sessions and routes come from

Hello messages of any peers arrive at any time, and their handlers interleave
(`HelloThreads`). Every call of the peer pool or the routing table is one step
there: `add_new_route` inserts under a shared lock, and two calls of it inside
each other are not covered. Whatever the order of the steps:

* a session that a peer has stays its session, and a route only gets better
  (`Lasts`), so a destination that can be delivered always has a next hop;
* a session was made for a verified certificate in a message that names the
  peer, a route is what a message of the peer offered, and a peer with a route
  has a session (`sessions_and_routes_traced`).
-/

set_option autoImplicit false

namespace P2PFileSync

namespace InstancePool

variable {KEY INSTANCE : Type} [DecidableEq KEY]

/-- What a key has after `add_instance`: its instance from before, or else the new
one. -/
theorem getInstance_addInstance (pool : InstancePool KEY INSTANCE) (key : KEY)
    (inst : INSTANCE) :
    (pool.addInstance key inst).2.getInstance key = some ((pool.getInstance key).getD inst) := by
  unfold addInstance getInstance
  split
  · rename_i missing
    rw [AList.lookup_insert, missing, Option.getD_none]
  · rename_i found
    rw [found, Option.getD_some]

end InstancePool

namespace HelloThreads

open TokenSystem

variable {X509 X509Store PublicKey : Type} {env : HelloExternals X509 X509Store PublicKey}
  {server : P2PServerContext X509 X509Store PublicKey} {calls : Set HelloCall}

/-- A worker begins to handle one of the messages. -/
def Begins (calls : Set HelloCall)
    (c d : Config (P2PServerContext X509 X509Store PublicKey) (Thread PublicKey)) : Prop :=
  ∃ call ∈ calls, d = ⟨c.state, c.tokens ++ [.start call]⟩

variable (env) in
/-- The runs in which workers begin to handle the given messages at any time. -/
abbrev HelloRun (calls : Set HelloCall) :
    Config (P2PServerContext X509 X509Store PublicKey) (Thread PublicKey) →
      Config (P2PServerContext X509 X509Store PublicKey) (Thread PublicKey) → Prop :=
  (system env).OpenRun (fun _ _ => True) (Begins calls)

/-! ## What lasts -/

variable (server) in
/-- Later on every session is still the same, and every route is still there,
with a ttl that is not larger. -/
structure Lasts (after : P2PServerContext X509 X509Store PublicKey) : Prop where
  session : ∀ id session, server.peerPool.getInstance id = some session →
    after.peerPool.getInstance id = some session
  route : ∀ id entry, server.routingTable.route id = some entry →
    ∃ later, after.routingTable.route id = some later ∧ later.2 ≤ entry.2

theorem Lasts.refl (server : P2PServerContext X509 X509Store PublicKey) : Lasts server server where
  session := fun _ _ known => known
  route := fun _ entry known => ⟨entry, known, UInt32.le_refl _⟩

theorem Lasts.trans {middle after : P2PServerContext X509 X509Store PublicKey}
    (first : Lasts server middle) (second : Lasts middle after) : Lasts server after where
  session := fun id session known => second.session id session (first.session id session known)
  route := fun id entry known => by
    obtain ⟨between, found, smaller⟩ := first.route id entry known
    obtain ⟨later, stays, least⟩ := second.route id between found
    exact ⟨later, stays, UInt32.le_trans least smaller⟩

/-- Adding a session keeps the others, and the one the peer has. -/
theorem Lasts.addInstance (id : Bytes) (newSession : PeerSession PublicKey) :
    Lasts server { server with peerPool := (server.peerPool.addInstance id newSession).2 } where
  session := by
    intro other session known
    by_cases same : other = id
    · rw [same] at known ⊢
      rw [InstancePool.getInstance_addInstance, known, Option.getD_some]
    · rw [InstancePool.getInstance_addInstance_ne _ same]
      exact known
  route := (Lasts.refl server).route

/-- What `try_update_table` leaves: a route from before, or the offered one where it
is better. -/
theorem route_tryUpdateTable_cases (table : RoutingTable Bytes) (dest other : Bytes)
    (newIp : IPAddress) (newTtl : UInt32) :
    (table.tryUpdateTable dest newIp newTtl).2.route other = table.route other ∨
      ∃ stored, other = dest ∧ table.route other = some stored ∧ newTtl < stored.2 ∧
        (table.tryUpdateTable dest newIp newTtl).2.route other = some (newIp, newTtl) := by
  by_cases same : other = dest
  · subst same
    cases known : table.route other with
    | none =>
        left
        unfold RoutingTable.route at known
        unfold RoutingTable.tryUpdateTable RoutingTable.route
        rw [known]
        exact known
    | some stored =>
        rw [RoutingTable.route_tryUpdateTable_of_some known newIp newTtl]
        by_cases better : newTtl < stored.2
        · exact .inr ⟨stored, rfl, rfl, better, by rw [if_pos better]⟩
        · exact .inl (by rw [if_neg better])
  · exact .inl (RoutingTable.route_tryUpdateTable_ne same newIp newTtl)

/-- What `add_new_route` leaves: a route from before, or the offered one where
there was none. -/
theorem route_addNewRoute_cases (table : RoutingTable Bytes) (dest other : Bytes)
    (newIp : IPAddress) (newTtl : UInt32) :
    (table.addNewRoute dest newIp newTtl).2.route other = table.route other ∨
      (other = dest ∧ table.route other = none ∧
        (table.addNewRoute dest newIp newTtl).2.route other = some (newIp, newTtl)) := by
  by_cases same : other = dest
  · subst same
    cases known : table.route other with
    | none => exact .inr ⟨rfl, rfl, RoutingTable.route_addNewRoute_of_none known newIp newTtl⟩
    | some stored =>
        left
        rw [RoutingTable.addNewRoute_of_some known]
        exact known
  · exact .inl (RoutingTable.route_addNewRoute_ne same newIp newTtl)

/-- What one step writes: a session for the sender, or the route the call offers. -/
inductive Writes (env : HelloExternals X509 X509Store PublicKey)
    (server : P2PServerContext X509 X509Store PublicKey) (thread : Thread PublicKey) :
    P2PServerContext X509 X509Store PublicKey → Prop where
  | nothing : Writes env server thread server
  | session (newSession : PeerSession PublicKey)
      (position : thread.position = .addInstance newSession) :
      Writes env server thread { server with
        peerPool := (server.peerPool.addInstance thread.call.message.senderId newSession).2 }
  | route (table : RoutingTable Bytes)
      (position : thread.position = .tryUpdateTable ∨ thread.position = .addNewRoute)
      (better : ∀ id, table.route id = server.routingTable.route id ∨
        (id = thread.call.message.senderId ∧ table.route id = some (thread.call.entry env) ∧
          ∀ stored, server.routingTable.route id = some stored → thread.call.ttl < stored.2)) :
      Writes env server thread { server with routingTable := table }

theorem writes_step (thread : Thread PublicKey) :
    Writes env server thread (step env server thread).1 := by
  obtain ⟨call, position⟩ := thread
  cases position with
  | getInstance =>
      simp only [step]
      split
      · exact .nothing
      · split <;> exact .nothing
  | addInstance newSession => exact .session newSession rfl
  | getDest => exact .nothing
  | canDelivered =>
      simp only [step]
      split <;> exact .nothing
  | tryUpdateTable =>
      refine .route _ (.inl rfl) ?_
      intro id
      rcases route_tryUpdateTable_cases server.routingTable call.message.senderId id
          (call.entry env).1 call.ttl with kept | ⟨stored, sender, known, better, found⟩
      · exact .inl kept
      · refine .inr ⟨sender, found, ?_⟩
        intro other otherKnown
        rwa [← Option.some.inj (known.symm.trans otherKnown)]
  | addNewRoute =>
      refine .route _ (.inr rfl) ?_
      intro id
      rcases route_addNewRoute_cases server.routingTable call.message.senderId id
          (call.entry env).1 call.ttl with kept | ⟨sender, unknown, found⟩
      · exact .inl kept
      · refine .inr ⟨sender, found, ?_⟩
        intro other otherKnown
        cases unknown.symm.trans otherKnown

theorem Writes.lasts {thread : Thread PublicKey}
    {after : P2PServerContext X509 X509Store PublicKey} (writes : Writes env server thread after) :
    Lasts server after := by
  cases writes with
  | nothing => exact .refl server
  | session newSession _ => exact .addInstance _ newSession
  | route table _ better =>
      refine ⟨(Lasts.refl server).session, ?_⟩
      intro id entry known
      rcases better id with kept | ⟨_, found, smaller⟩
      · exact ⟨entry, kept.trans known, UInt32.le_refl _⟩
      · exact ⟨thread.call.entry env, found, UInt32.le_of_lt (smaller entry known)⟩

theorem lasts_of_fires
    {c d : Config (P2PServerContext X509 X509Store PublicKey) (Thread PublicKey)}
    {thread : Thread PublicKey} (fires : (system env).Fires c thread d) :
    Lasts c.state d.state := by
  obtain ⟨produced, outcome, -⟩ := fires.mem_tokens
  obtain ⟨state, -⟩ := Prod.mk.inj (Option.some.inj outcome)
  rw [← state]
  exact (writes_step thread).lasts

/-- **Sessions and routes last.** In every run, in which any messages of any peers
are handled concurrently and each call of the pool or the table is one step, a
peer with a session keeps this session, whatever certificates its later messages
carry; and a destination with a route keeps a route, whose ttl never grows, so
that it always has a next hop. -/
theorem sessions_and_routes_last
    {c d : Config (P2PServerContext X509 X509Store PublicKey) (Thread PublicKey)}
    (run : HelloRun env calls c d) (id : Bytes) :
    (∀ session, c.state.peerPool.getInstance id = some session →
      d.state.peerPool.getInstance id = some session) ∧
      ∀ entry, c.state.routingTable.route id = some entry →
        ∃ later, d.state.routingTable.route id = some later ∧ later.2 ≤ entry.2 ∧
          d.state.routingTable.getNextPeer id = some later.1 := by
  have lasts : Lasts c.state d.state := by
    apply OpenRun.preserves run (fun e => Lasts c.state e.state)
    · intro e f thread lasts _ fires
      exact lasts.trans (lasts_of_fires fires)
    · rintro e f lasts ⟨call, -, rfl⟩
      exact lasts
    · exact .refl c.state
  refine ⟨lasts.session id, ?_⟩
  intro entry known
  obtain ⟨later, found, smaller⟩ := lasts.route id entry known
  refine ⟨later, found, smaller, ?_⟩
  unfold RoutingTable.route at found
  rw [RoutingTable.getNextPeer, found, Option.map_some]

/-- Another message of peer 1, with a certificate for the key 5 and a smaller
ttl. -/
def otherKey : HelloCall where
  message := { senderId := [1], x509Certificate := [5, 9] }
  prevPort := 4000
  clientAddress := loopbackSin
  ttl := 3

/-- The node after one message of peer 1. -/
def metPeer : P2PServerContext (UInt8 × UInt8) UInt8 UInt8 :=
  ((helloFrom 9 3324 5).handle .plain (newNode 2)).server

/-- Two more messages of peer 1 are handled at once, one with a valid certificate
for another key. Both threads come to `try_update_table`, the one with the better
route first: peer 1 keeps its session and gets the better route. -/
theorem sessions_and_routes_last_two :
    ∃ d, HelloRun .plain {otherKey, helloFrom 9 4001 4} ⟨metPeer, []⟩ d ∧ d.tokens = [] ∧
      PeerSession.newSession HelloExternals.plain.toX509Api 9 [5, 9] = some ⟨5, none⟩ ∧
      d.state.peerPool.getInstance [1] = some ⟨1, none⟩ ∧
      ∃ later, d.state.routingTable.route [1] = some later ∧ later.2 ≤ 5 ∧
        d.state.routingTable.getNextPeer [1] = some later.1 := by
  have executed : ((system .plain).exec [0, 0, 0, 0, 0, 0, 0, 0]
      ⟨metPeer, [.start otherKey, .start (helloFrom 9 4001 4)]⟩).map
        (fun d => d.tokens.length) = some 0 := by
    decide +kernel
  obtain ⟨d, executed, count⟩ := Option.map_eq_some_iff.mp executed
  have run : HelloRun .plain {otherKey, helloFrom 9 4001 4} ⟨metPeer, []⟩ d :=
    .head (.act ⟨otherKey, .inl rfl, rfl⟩)
      (.head (.act ⟨helloFrom 9 4001 4, .inr rfl, rfl⟩)
        ((run_of_exec executed).openRun fun _ _ => trivial))
  obtain ⟨session, route⟩ := sessions_and_routes_last run [1]
  exact ⟨d, run, List.length_eq_zero_iff.mp count, rfl, session ⟨1, none⟩ rfl,
    route (loopback, 5) (by decide)⟩

/-! ## Where they come from -/

section Traced

variable (env server calls)

/-- The session is for a certificate that verifies, in a message of the peer. -/
def Certified (id : Bytes) (session : PeerSession PublicKey) : Prop :=
  ∃ call ∈ calls, call.message.senderId = id ∧
    PeerSession.newSession env.toX509Api server.x509Store call.message.x509Certificate =
      some session

/-- What a running call has found out. -/
def Justified (current : P2PServerContext X509 X509Store PublicKey)
    (thread : Thread PublicKey) : Prop :=
  thread.call ∈ calls ∧
    match thread.position with
    | .getInstance => True
    | .addInstance newSession =>
        Certified env server calls thread.call.message.senderId newSession
    | .getDest | .canDelivered | .tryUpdateTable | .addNewRoute =>
        (current.peerPool.getInstance thread.call.message.senderId).isSome = true

/-- Every session and every route that was not there at the start has its
message. -/
structure Traced (current : P2PServerContext X509 X509Store PublicKey) : Prop where
  store : current.x509Store = server.x509Store
  session : ∀ id session, current.peerPool.getInstance id = some session →
    server.peerPool.getInstance id = some session ∨ Certified env server calls id session
  route : ∀ id entry, current.routingTable.route id = some entry →
    server.routingTable.route id = some entry ∨
      ((∃ call ∈ calls, call.message.senderId = id ∧ call.entry env = entry) ∧
        (current.peerPool.getInstance id).isSome = true)

variable {env server calls}

/-- What a call has found out stays true. -/
theorem Justified.lasts {current after : P2PServerContext X509 X509Store PublicKey}
    {thread : Thread PublicKey} (justified : Justified env server calls current thread)
    (lasts : Lasts current after) : Justified env server calls after thread := by
  obtain ⟨call, position⟩ := thread
  obtain ⟨listed, found⟩ := justified
  refine ⟨listed, ?_⟩
  cases position with
  | getInstance => trivial
  | addInstance newSession => exact found
  | getDest | canDelivered | tryUpdateTable | addNewRoute =>
      obtain ⟨session, known⟩ := Option.isSome_iff_exists.mp found
      exact Option.isSome_iff_exists.mpr ⟨session, lasts.session _ _ known⟩

/-- A thread after its step has found out what it relies on. -/
theorem Justified.step {current : P2PServerContext X509 X509Store PublicKey}
    (store : current.x509Store = server.x509Store) {thread : Thread PublicKey}
    (justified : Justified env server calls current thread) :
    ∀ next ∈ (step env current thread).2,
      Justified env server calls (HelloThreads.step env current thread).1 next := by
  obtain ⟨call, position⟩ := thread
  obtain ⟨listed, found⟩ := justified
  intro next member
  cases position with
  | getInstance =>
      simp only [HelloThreads.step] at member ⊢
      cases known : current.peerPool.getInstance call.message.senderId with
      | some session =>
          simp only [known] at member ⊢
          rw [List.mem_singleton.mp member]
          refine ⟨listed, ?_⟩
          dsimp only
          rw [known, Option.isSome_some]
      | none =>
          simp only [known] at member ⊢
          cases made : PeerSession.newSession env.toX509Api current.x509Store
              call.message.x509Certificate with
          | none =>
              simp only [made] at member
              cases member
          | some newSession =>
              simp only [made] at member ⊢
              rw [List.mem_singleton.mp member]
              rw [store] at made
              exact ⟨listed, call, listed, rfl, made⟩
  | addInstance newSession =>
      rw [List.mem_singleton.mp member]
      exact ⟨listed, InstancePool.isSome_getInstance_addInstance _ _ _⟩
  | getDest =>
      rw [List.mem_singleton.mp member]
      exact ⟨listed, found⟩
  | canDelivered =>
      simp only [HelloThreads.step] at member ⊢
      split at member <;> rename_i known
      · rw [List.mem_singleton.mp member, if_pos known]
        exact ⟨listed, found⟩
      · rw [List.mem_singleton.mp member, if_neg known]
        exact ⟨listed, found⟩
  | tryUpdateTable | addNewRoute => cases member

/-- A step writes only what the thread has found out. -/
theorem Traced.writes {current after : P2PServerContext X509 X509Store PublicKey}
    {thread : Thread PublicKey} (traced : Traced env server calls current)
    (justified : Justified env server calls current thread)
    (writes : Writes env current thread after) : Traced env server calls after := by
  obtain ⟨call, position⟩ := thread
  obtain ⟨listed, found⟩ := justified
  cases writes with
  | nothing => exact traced
  | session newSession at_position =>
      cases at_position
      have lasts : Lasts current _ := Lasts.addInstance call.message.senderId newSession
      refine ⟨traced.store, ?_, ?_⟩
      · intro id session known
        by_cases sender : id = call.message.senderId
        · subst sender
          dsimp only at known
          rw [InstancePool.getInstance_addInstance] at known
          cases old : current.peerPool.getInstance call.message.senderId with
          | some before =>
              rw [old, Option.getD_some] at known
              exact traced.session _ session (old.trans known)
          | none =>
              rw [old, Option.getD_none] at known
              rw [← Option.some.inj known]
              exact .inr found
        · dsimp only at known
          rw [InstancePool.getInstance_addInstance_ne _ sender] at known
          exact traced.session id session known
      · intro id entry known
        refine (traced.route id entry known).imp_right ?_
        rintro ⟨offered, peer⟩
        obtain ⟨session, stored⟩ := Option.isSome_iff_exists.mp peer
        exact ⟨offered, Option.isSome_iff_exists.mpr ⟨session, lasts.session _ _ stored⟩⟩
  | route table at_position better =>
      have peer : (current.peerPool.getInstance call.message.senderId).isSome = true := by
        rcases at_position with here | here <;>
          · cases here
            exact found
      refine ⟨traced.store, traced.session, ?_⟩
      intro id entry known
      rcases better id with kept | ⟨sender, offered, -⟩
      · exact traced.route id entry (kept.symm.trans known)
      · rw [sender]
        exact .inr ⟨⟨call, listed, rfl, Option.some.inj (offered.symm.trans known)⟩, peer⟩

variable (env server calls) in
/-- The whole configuration: the server is traced and every call justified. -/
structure TracedRun
    (c : Config (P2PServerContext X509 X509Store PublicKey) (Thread PublicKey)) : Prop where
  traced : Traced env server calls c.state
  justified : ∀ thread ∈ c.tokens, Justified env server calls c.state thread

theorem TracedRun.fires
    {c d : Config (P2PServerContext X509 X509Store PublicKey) (Thread PublicKey)}
    {thread : Thread PublicKey} (run : TracedRun env server calls c)
    (fires : (system env).Fires c thread d) : TracedRun env server calls d := by
  obtain ⟨produced, outcome, members⟩ := fires.mem_tokens
  obtain ⟨state, products⟩ : (step env c.state thread).1 = d.state ∧
      (step env c.state thread).2 = produced := Prod.mk.inj (Option.some.inj outcome)
  have justified := run.justified thread fires.mem
  have writes : Writes env c.state thread (step env c.state thread).1 := writes_step thread
  rw [state] at writes
  refine ⟨run.traced.writes justified writes, ?_⟩
  intro other member
  rcases members other member with old | new
  · exact (run.justified other old).lasts writes.lasts
  · rw [← products] at new
    rw [← state]
    exact justified.step run.traced.store other new

/-- **Sessions and routes are traced.** In every run from a server, in which the
given messages are handled concurrently and each call of the pool or the table is
one step, a session that the server did not have was made for a verified
certificate in a message that names the peer; a route that it did not have is the
address and ttl of a message of the peer, and this peer has a session. -/
theorem sessions_and_routes_traced
    {d : Config (P2PServerContext X509 X509Store PublicKey) (Thread PublicKey)}
    (run : HelloRun env calls ⟨server, []⟩ d) (id : Bytes) :
    (∀ session, d.state.peerPool.getInstance id = some session →
      server.peerPool.getInstance id = some session ∨
        ∃ call ∈ calls, call.message.senderId = id ∧
          PeerSession.newSession env.toX509Api server.x509Store
            call.message.x509Certificate = some session) ∧
      ∀ entry, d.state.routingTable.route id = some entry →
        server.routingTable.route id = some entry ∨
          ((∃ call ∈ calls, call.message.senderId = id ∧ call.entry env = entry) ∧
            (d.state.peerPool.getInstance id).isSome = true) := by
  have traced : TracedRun env server calls d := by
    apply OpenRun.preserves run (TracedRun env server calls)
    · intro c d thread traced _ fires
      exact traced.fires fires
    · rintro c d traced ⟨call, listed, rfl⟩
      refine ⟨traced.traced, ?_⟩
      intro thread member
      rcases List.mem_append.mp member with old | new
      · exact traced.justified thread old
      · rw [List.mem_singleton.mp new]
        exact ⟨listed, trivial⟩
    · refine ⟨⟨rfl, fun _ _ known => .inl known, fun _ _ known => .inl known⟩, ?_⟩
      intro thread member
      cases member
  exact ⟨traced.traced.session id, traced.traced.route id⟩

end Traced

/-- Two messages of peer 1 with certificates for different keys are handled at once
on a new node. Both threads have made a session before either adds it, and both
come to `add_new_route`. -/
theorem sessions_and_routes_traced_two :
    ∃ d, HelloRun .plain {helloFrom 9 3324 5, otherKey} ⟨newNode 2, []⟩ d ∧ d.tokens = [] ∧
      (d.state.peerPool.getInstance [1]).isSome = true ∧
      (d.state.routingTable.route [1]).isSome = true ∧
      (∀ session, d.state.peerPool.getInstance [1] = some session →
        (newNode 2).peerPool.getInstance [1] = some session ∨
          ∃ call ∈ ({helloFrom 9 3324 5, otherKey} : Set HelloCall), call.message.senderId = [1] ∧
            PeerSession.newSession HelloExternals.plain.toX509Api (newNode 2).x509Store
              call.message.x509Certificate = some session) ∧
      ∀ entry, d.state.routingTable.route [1] = some entry →
        (newNode 2).routingTable.route [1] = some entry ∨
          ((∃ call ∈ ({helloFrom 9 3324 5, otherKey} : Set HelloCall),
              call.message.senderId = [1] ∧ call.entry .plain = entry) ∧
            (d.state.peerPool.getInstance [1]).isSome = true) := by
  have executed : ((system .plain).exec [0, 0, 0, 0, 0, 0, 0, 0, 0, 0]
      ⟨newNode 2, [.start (helloFrom 9 3324 5), .start otherKey]⟩).map (fun d =>
        (d.tokens.length, (d.state.peerPool.getInstance [1]).isSome,
          (d.state.routingTable.route [1]).isSome)) = some (0, true, true) := by
    decide +kernel
  obtain ⟨d, executed, outcome⟩ := Option.map_eq_some_iff.mp executed
  obtain ⟨count, outcome⟩ := Prod.mk.inj outcome
  obtain ⟨session, route⟩ := Prod.mk.inj outcome
  have run : HelloRun .plain {helloFrom 9 3324 5, otherKey} ⟨newNode 2, []⟩ d :=
    .head (.act ⟨helloFrom 9 3324 5, .inl rfl, rfl⟩)
      (.head (.act ⟨otherKey, .inr rfl, rfl⟩)
        ((run_of_exec executed).openRun fun _ _ => trivial))
  exact ⟨d, run, List.length_eq_zero_iff.mp count, session, route,
    sessions_and_routes_traced run [1]⟩

end HelloThreads

end P2PFileSync
