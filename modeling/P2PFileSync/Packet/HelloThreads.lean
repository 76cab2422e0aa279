import Mathlib.Data.List.Permutation
import P2PFileSync.Foundations.TokenSystem
import P2PFileSync.Packet.HelloMessage

/-!
# Hello messages handled concurrently

The worker pool runs any number of `internal_handle` calls at once. A thread is
a call and the place it has reached; every call of the peer pool or the routing
table is one step, and the steps of the threads interleave in any order. A
thread on its own computes `internal_handle` (`thread_alone`).

A thread that found no route calls `add_new_route`, although another thread may
have added one since, and ignores its answer: a smaller ttl is lost
(`better_route_lost`). In every run without such a step the outcome is that of
handling the messages one after another (`handled_in_some_order`).
-/

set_option autoImplicit false

namespace P2PFileSync

namespace HelloThreads

open TokenSystem

variable {X509 X509Store PublicKey : Type}

/-- The next step of a running `internal_handle`. -/
inductive Position (PublicKey : Type) where
  | getInstance
  | addInstance (newSession : PeerSession PublicKey)
  /-- The second `get_instance`, whose result is not used. -/
  | getDest
  | canDelivered
  | tryUpdateTable
  | addNewRoute

/-- A running `internal_handle`. -/
structure Thread (PublicKey : Type) where
  call : HelloCall
  position : Position PublicKey

/-- A thread at its first step. -/
def Thread.start (call : HelloCall) : Thread PublicKey := ⟨call, .getInstance⟩

section System

variable (env : HelloExternals X509 X509Store PublicKey)

/-- One step of a thread: the server afterwards, and the thread unless it has
returned. The reply of `send_pkg` reads and writes neither the pool nor the
table. -/
def step (server : P2PServerContext X509 X509Store PublicKey) (thread : Thread PublicKey) :
    P2PServerContext X509 X509Store PublicKey × List (Thread PublicKey) :=
  match thread.position with
  | .getInstance =>
      match server.peerPool.getInstance thread.call.message.senderId with
      | some _ => (server, [{ thread with position := .getDest }])
      | none =>
          match PeerSession.newSession env.toX509Api server.x509Store
              thread.call.message.x509Certificate with
          | none => (server, [])
          | some newSession => (server, [{ thread with position := .addInstance newSession }])
  | .addInstance newSession =>
      ({ server with
          peerPool := (server.peerPool.addInstance thread.call.message.senderId newSession).2 },
        [{ thread with position := .getDest }])
  | .getDest => (server, [{ thread with position := .canDelivered }])
  | .canDelivered =>
      if server.routingTable.canDelivered thread.call.message.senderId = true then
        (server, [{ thread with position := .tryUpdateTable }])
      else (server, [{ thread with position := .addNewRoute }])
  | .tryUpdateTable =>
      ({ server with
          routingTable := (server.routingTable.tryUpdateTable thread.call.message.senderId
            (thread.call.entry env).1 thread.call.ttl).2 }, [])
  | .addNewRoute =>
      ({ server with
          routingTable := (server.routingTable.addNewRoute thread.call.message.senderId
            (thread.call.entry env).1 thread.call.ttl).2 }, [])

def system : TokenSystem (P2PServerContext X509 X509Store PublicKey) (Thread PublicKey) :=
  ⟨fun server thread => some (step env server thread)⟩

end System

variable {env : HelloExternals X509 X509Store PublicKey}
  {server : P2PServerContext X509 X509Store PublicKey} {call : HelloCall}

/-- The thread is about to add a route although a worse one has been added
since it looked. -/
def Overtaken (server : P2PServerContext X509 X509Store PublicKey) (thread : Thread PublicKey) :
    Prop :=
  thread.position = .addNewRoute ∧
    ∃ stored, server.routingTable.route thread.call.message.senderId = some stored ∧
      thread.call.ttl < stored.2

instance (server : P2PServerContext X509 X509Store PublicKey) (thread : Thread PublicKey) :
    Decidable (Overtaken server thread) :=
  match thread with
  | ⟨call, .addNewRoute⟩ =>
      match route : server.routingTable.route call.message.senderId with
      | none => isFalse fun ⟨_, _, stored, _⟩ => by cases route.symm.trans stored
      | some stored =>
          if smaller : call.ttl < stored.2 then isTrue ⟨rfl, stored, route, smaller⟩
          else isFalse fun ⟨_, _, other, less⟩ =>
            smaller (Option.some.inj (route.symm.trans other) ▸ less)
  | ⟨_, .getInstance⟩ | ⟨_, .addInstance _⟩ | ⟨_, .getDest⟩ | ⟨_, .canDelivered⟩
  | ⟨_, .tryUpdateTable⟩ => isFalse fun overtaken => by cases overtaken.1

variable (env) in
/-- The runs in which no thread is overtaken. -/
abbrev UndisturbedRun : Config (P2PServerContext X509 X509Store PublicKey) (Thread PublicKey) →
    Config (P2PServerContext X509 X509Store PublicKey) (Thread PublicKey) → Prop :=
  (system env).OpenRun (fun server thread => ¬ Overtaken server thread) fun _ _ => False

/-! ## A thread on its own -/

/-- The only thread takes its next step. -/
theorem step_alone {position : Position PublicKey}
    (admitted : ¬ Overtaken server ⟨call, position⟩) :
    (system env).OpenStep (fun server thread => ¬ Overtaken server thread) (fun _ _ => False)
      ⟨server, [⟨call, position⟩]⟩
      ⟨(step env server ⟨call, position⟩).1, (step env server ⟨call, position⟩).2⟩ :=
  .fire admitted ⟨0, rfl, rfl⟩

/-- From the routing table on, the thread does what the second part of
`internal_handle` does. -/
theorem run_updateRoute :
    UndisturbedRun env ⟨server, [⟨call, .canDelivered⟩]⟩
      ⟨(updateRoute env server call.message (call.entry env).1 call.ttl).server, []⟩ := by
  refine .head (step_alone fun overtaken => by cases overtaken.1) ?_
  by_cases known : server.routingTable.canDelivered call.message.senderId = true
  · simp only [step, updateRoute, if_pos known]
    exact .single (step_alone fun overtaken => by cases overtaken.1)
  · simp only [step, updateRoute, if_neg known]
    refine .single (step_alone ?_)
    rintro ⟨-, stored, route, -⟩
    exact known (Option.isSome_iff_exists.mpr ⟨stored, route⟩)

/-- **A thread on its own computes `internal_handle`.** -/
theorem thread_alone :
    UndisturbedRun env ⟨server, [.start call]⟩ ⟨(call.handle env server).server, []⟩ := by
  refine .head (step_alone fun overtaken => by cases overtaken.1) ?_
  unfold HelloCall.handle internalHandle updateSession
  simp only [step]
  cases server.peerPool.getInstance call.message.senderId with
  | some _ => exact .head (step_alone fun overtaken => by cases overtaken.1) run_updateRoute
  | none =>
      cases PeerSession.newSession env.toX509Api server.x509Store
          call.message.x509Certificate with
      | none => exact .refl
      | some newSession =>
          refine .head (step_alone fun overtaken => by cases overtaken.1) ?_
          exact .head (step_alone fun overtaken => by cases overtaken.1) run_updateRoute

/-! ## One step among others -/

variable (env server) in
/-- The thread moves on and leaves the routing table alone. It comes to
`try_update_table` only where there is a route. -/
def MovesOn (thread : Thread PublicKey) : Prop :=
  ∃ position, (step env server thread).2 = [{ thread with position := position }] ∧
    (step env server thread).1.routingTable = server.routingTable ∧
    (position = .tryUpdateTable →
      (server.routingTable.route thread.call.message.senderId).isSome = true)

variable (env server) in
/-- The thread returns. It has offered its route, unless it was overtaken. -/
def Returns (thread : Thread PublicKey) : Prop :=
  (step env server thread).2 = [] ∧
    ((thread.position = .tryUpdateTable →
      (server.routingTable.route thread.call.message.senderId).isSome = true) →
      ¬ Overtaken server thread →
      (step env server thread).1.routingTable.route thread.call.message.senderId =
        some (offered (server.routingTable.route thread.call.message.senderId)
          (thread.call.entry env)))

/-- A step that leaves the server as it is. -/
theorem movesOn_of_unchanged {thread : Thread PublicKey} {position : Position PublicKey}
    (outcome : step env server thread = (server, [{ thread with position := position }]))
    (routed : position = .tryUpdateTable →
      (server.routingTable.route thread.call.message.senderId).isSome = true) :
    Grows server (step env server thread).1 ∧ MovesOn env server thread := by
  unfold MovesOn
  rw [outcome]
  exact ⟨.refl server, position, rfl, rfl, routed⟩

/-- The call finds a session, or the certificate gives it one to add. -/
theorem movesOn_getInstance (accepts : Accepts env server call.message) :
    Grows server (step env server ⟨call, .getInstance⟩).1 ∧
      MovesOn env server ⟨call, .getInstance⟩ := by
  cases known : server.peerPool.getInstance call.message.senderId with
  | some session =>
      have outcome : step env server ⟨call, .getInstance⟩ = (server, [⟨call, .getDest⟩]) := by
        simp only [step, known]
      exact movesOn_of_unchanged outcome fun impossible => by cases impossible
  | none =>
      obtain ⟨session, made⟩ := accepts.exists_newSession known
      have outcome : step env server ⟨call, .getInstance⟩ =
          (server, [⟨call, .addInstance session⟩]) := by
        simp only [step, known, made]
      exact movesOn_of_unchanged outcome fun impossible => by cases impossible

/-- Adding a session takes no other one away. -/
theorem movesOn_addInstance (newSession : PeerSession PublicKey) :
    Grows server (step env server ⟨call, .addInstance newSession⟩).1 ∧
      MovesOn env server ⟨call, .addInstance newSession⟩ := by
  refine ⟨⟨rfl, ?_, fun _ route => route⟩, .getDest, rfl, rfl,
    fun impossible => by cases impossible⟩
  intro id session
  by_cases sender : id = call.message.senderId
  · rw [sender]
    exact InstancePool.isSome_getInstance_addInstance _ _ _
  · have other := InstancePool.getInstance_addInstance_ne server.peerPool sender newSession
    exact (congrArg Option.isSome other).trans session

/-- The call looks for a route and goes to the step for what it finds. -/
theorem movesOn_canDelivered :
    Grows server (step env server ⟨call, .canDelivered⟩).1 ∧
      MovesOn env server ⟨call, .canDelivered⟩ := by
  by_cases known : server.routingTable.canDelivered call.message.senderId = true
  · have outcome : step env server ⟨call, .canDelivered⟩ =
        (server, [⟨call, .tryUpdateTable⟩]) := by
      simp only [step, if_pos known]
    exact movesOn_of_unchanged outcome fun _ => known
  · have outcome : step env server ⟨call, .canDelivered⟩ = (server, [⟨call, .addNewRoute⟩]) := by
      simp only [step, if_neg known]
    exact movesOn_of_unchanged outcome fun impossible => by cases impossible

theorem returns_tryUpdateTable :
    Grows server (step env server ⟨call, .tryUpdateTable⟩).1 ∧
      Returns env server ⟨call, .tryUpdateTable⟩ := by
  refine ⟨⟨rfl, fun _ session => session, ?_⟩, rfl, ?_⟩
  · intro id route
    exact RoutingTable.isSome_route_tryUpdateTable route _ _ _
  · intro routed _
    obtain ⟨stored, known⟩ := Option.isSome_iff_exists.mp (routed rfl)
    dsimp only at known ⊢
    rw [known]
    exact RoutingTable.route_tryUpdateTable_of_some known _ _

/-- A call that adds a route finds none, or one that is at least as good. -/
theorem returns_addNewRoute :
    Grows server (step env server ⟨call, .addNewRoute⟩).1 ∧
      Returns env server ⟨call, .addNewRoute⟩ := by
  refine ⟨⟨rfl, fun _ session => session, ?_⟩, rfl, ?_⟩
  · intro id route
    exact RoutingTable.isSome_route_addNewRoute route _ _ _
  · intro _ notOvertaken
    dsimp only at notOvertaken ⊢
    cases known : server.routingTable.route call.message.senderId with
    | none => exact RoutingTable.route_addNewRoute_of_none known _ _
    | some stored =>
        have notSmaller : ¬ (call.entry env).2 < stored.2 :=
          fun smaller => notOvertaken ⟨rfl, stored, known, smaller⟩
        simp only [step, RoutingTable.addNewRoute_of_some known, known, offered,
          if_neg notSmaller]

/-- **Everything a step of an accepted call can do**: the thread moves on, or it
returns and has offered its route. -/
theorem step_cases {thread : Thread PublicKey}
    (accepts : Accepts env server thread.call.message) :
    Grows server (step env server thread).1 ∧
      (MovesOn env server thread ∨ Returns env server thread) := by
  obtain ⟨call, position⟩ := thread
  cases position with
  | getInstance => exact (movesOn_getInstance accepts).imp_right .inl
  | addInstance newSession => exact (movesOn_addInstance newSession).imp_right .inl
  | getDest =>
      have outcome : step env server ⟨call, .getDest⟩ = (server, [⟨call, .canDelivered⟩]) := rfl
      have moves : Grows server (step env server ⟨call, .getDest⟩).1 ∧
          MovesOn env server ⟨call, .getDest⟩ :=
        movesOn_of_unchanged outcome fun impossible => by cases impossible
      exact moves.imp_right .inl
  | canDelivered => exact movesOn_canDelivered.imp_right .inl
  | tryUpdateTable => exact returns_tryUpdateTable.imp_right .inr
  | addNewRoute => exact returns_addNewRoute.imp_right .inr

/-! ## Runs -/

variable (env server) in
/-- The route of the sender is the best one of the calls that have returned. -/
def KeepsBest (sender : Bytes) (returned : List HelloCall) : Prop :=
  (returned = [] ∧ server.routingTable.route sender = none) ∨
    ∃ best ∈ returned, (∀ other ∈ returned, best.ttl ≤ other.ttl) ∧
      server.routingTable.route sender = some (best.entry env)

/-- A call that has offered its route may return. -/
theorem KeepsBest.cons {sender : Bytes} {returned : List HelloCall}
    {after : P2PServerContext X509 X509Store PublicKey}
    (keeps : KeepsBest env server sender returned)
    (route : after.routingTable.route sender =
      some (offered (server.routingTable.route sender) (call.entry env))) :
    KeepsBest env after sender (call :: returned) := by
  refine .inr ?_
  rcases keeps with ⟨rfl, unknown⟩ | ⟨best, member, smallest, known⟩
  · rw [unknown] at route
    refine ⟨call, List.mem_cons_self, ?_, route⟩
    intro other listed
    rw [List.mem_singleton.mp listed]
    exact UInt32.le_refl _
  · rw [known, offered] at route
    by_cases smaller : (call.entry env).2 < (best.entry env).2
    · rw [if_pos smaller] at route
      refine ⟨call, List.mem_cons_self, ?_, route⟩
      intro other listed
      rcases List.mem_cons.mp listed with rfl | old
      · exact UInt32.le_refl _
      · exact UInt32.le_trans (UInt32.le_of_lt smaller) (smallest other old)
    · rw [if_neg smaller] at route
      refine ⟨best, List.mem_cons_of_mem _ member, ?_, route⟩
      intro other listed
      rcases List.mem_cons.mp listed with rfl | old
      · exact UInt32.not_lt.mp smaller
      · exact smallest other old

variable (env server) in
/-- Where a run of some calls has got to: each call is still running or has
returned, and the route is the best one of those that have returned. -/
structure Progress (sender : Bytes) (calls : List HelloCall)
    (c : Config (P2PServerContext X509 X509Store PublicKey) (Thread PublicKey)) : Prop where
  grows : Grows server c.state
  routed : ∀ thread ∈ c.tokens, thread.position = .tryUpdateTable →
    (c.state.routingTable.route sender).isSome = true
  returned : ∃ returned, (returned ++ c.tokens.map Thread.call).Perm calls ∧
    KeepsBest env c.state sender returned

/-- What a run does to the route, step by step. -/
theorem Progress.fires {sender : Bytes} {calls : List HelloCall}
    {c d : Config (P2PServerContext X509 X509Store PublicKey) (Thread PublicKey)}
    {thread : Thread PublicKey} (progress : Progress env server sender calls c)
    (sent : ∀ call ∈ calls, call.message.senderId = sender)
    (accepts : ∀ call ∈ calls, Accepts env server call.message)
    (admitted : ¬ Overtaken c.state thread) (fires : (system env).Fires c thread d) :
    Progress env server sender calls d := by
  obtain ⟨produced, outcome, members⟩ := fires.mem_tokens
  have pool := (fires.perm outcome).map Thread.call
  obtain ⟨returned, all, keeps⟩ := progress.returned
  obtain ⟨state, products⟩ : (step env c.state thread).1 = d.state ∧
      (step env c.state thread).2 = produced := Prod.mk.inj (Option.some.inj outcome)
  have listed : thread.call ∈ calls :=
    all.mem_iff.mp (List.mem_append_right _ (List.mem_map_of_mem fires.mem))
  have here := sent _ listed
  obtain ⟨grows, ⟨position, continues, sameTable, routed⟩ | ⟨ended, offers⟩⟩ :=
    step_cases ((accepts _ listed).grows progress.grows)
  · obtain rfl := products.symm.trans continues
    rw [state] at sameTable grows
    rw [here] at routed
    refine ⟨progress.grows.trans grows, ?_, returned, ?_, ?_⟩
    · intro other otherMember waiting
      rw [sameTable]
      rcases members other otherMember with old | new
      · exact progress.routed other old waiting
      · rw [List.mem_singleton.mp new] at waiting
        exact routed waiting
    · have same : (d.tokens.map Thread.call).Perm (c.tokens.map Thread.call) := by
        rw [List.map_append, List.map_singleton] at pool
        exact (pool.trans (List.perm_append_singleton _ _)).cons_inv
      exact (same.append_left returned).trans all
    · unfold KeepsBest
      rw [sameTable]
      exact keeps
  · obtain rfl := products.symm.trans ended
    rw [state] at offers grows
    rw [here] at offers
    refine ⟨progress.grows.trans grows, ?_, thread.call :: returned, ?_,
      keeps.cons (offers (progress.routed thread fires.mem) admitted)⟩
    · intro other otherMember waiting
      have old := (members other otherMember).resolve_right List.not_mem_nil
      exact grows.route _ (progress.routed other old waiting)
    · have shorter : (thread.call :: d.tokens.map Thread.call).Perm
          (c.tokens.map Thread.call) := by
        rwa [List.append_nil] at pool
      exact List.perm_middle.symm.trans ((shorter.append_left returned).trans all)

/-- The best one of some calls, handled first, determines the route. -/
theorem route_best_first {sender : Bytes} {best : HelloCall} {others : List HelloCall}
    (unknown : server.routingTable.route sender = none)
    (sent : ∀ call ∈ best :: others, call.message.senderId = sender)
    (accepts : ∀ call ∈ best :: others, Accepts env server call.message)
    (smallest : ∀ other ∈ others, best.ttl ≤ other.ttl) :
    (handleAll env server (best :: others)).routingTable.route sender =
      some (best.entry env) := by
  rw [route_handleAll unknown sent (accepts best List.mem_cons_self), List.argmin_cons]
  cases least : others.argmin fun call => call.ttl.toNat with
  | none => rfl
  | some other =>
      have notSmaller : ¬ other.ttl.toNat < best.ttl.toNat :=
        Nat.not_lt.mpr (UInt32.le_iff_toNat_le.mp (smallest other (List.argmin_mem least)))
      simp only [if_neg notSmaller, Option.map_some]

/-- **Concurrent handling.** Any calls of one sender are started together on a
server without routes. In a run in which no thread is overtaken, once all have
returned, the route of the sender is the one that the same calls leave when they
are handled one after another in some order, and none of them offered a smaller
ttl. -/
theorem handled_in_some_order {sender : Bytes} {calls : List HelloCall}
    {d : Config (P2PServerContext X509 X509Store PublicKey) (Thread PublicKey)}
    (empty : server.routingTable = ⟨∅⟩) (sent : ∀ call ∈ calls, call.message.senderId = sender)
    (accepts : ∀ call ∈ calls, Accepts env server call.message)
    (run : UndisturbedRun env ⟨server, calls.map Thread.start⟩ d)
    (finished : d.tokens = []) :
    (∃ order, order.Perm calls ∧ d.state.routingTable.route sender =
        (handleAll env server order).routingTable.route sender) ∧
      ∀ call ∈ calls, ∃ entry, d.state.routingTable.route sender = some entry ∧
        entry.2 ≤ call.ttl := by
  have unknown : server.routingTable.route sender = none := by
    rw [empty]
    rfl
  have start : Progress env server sender calls ⟨server, calls.map Thread.start⟩ := by
    refine ⟨.refl server, ?_, [], ?_, .inl ⟨rfl, unknown⟩⟩
    · intro thread member waiting
      obtain ⟨call, _, rfl⟩ := List.mem_map.mp member
      cases waiting
    · rw [List.map_map, List.nil_append]
      exact .of_eq (List.map_id calls)
  have progress := run.preserves (Progress env server sender calls)
    (fun c d thread progress admitted fires => progress.fires sent accepts admitted fires)
    (fun _ _ _ impossible => impossible.elim) start
  obtain ⟨returned, all, keeps⟩ := progress.returned
  rw [finished, List.map_nil, List.append_nil] at all
  rcases keeps with ⟨rfl, none⟩ | ⟨best, member, smallest, route⟩
  · obtain rfl := all.symm.eq_nil
    exact ⟨⟨[], .refl _, none.trans unknown.symm⟩, fun _ impossible => by cases impossible⟩
  · have listed : ∀ call, call ∈ best :: returned.erase best → call ∈ calls := fun call found =>
      all.mem_iff.mp ((List.perm_cons_erase member).mem_iff.mpr found)
    have sequential : (handleAll env server (best :: returned.erase best)).routingTable.route
        sender = some (best.entry env) := route_best_first unknown
      (fun call found => sent call (listed call found))
      (fun call found => accepts call (listed call found))
      (fun other found => smallest other (List.mem_of_mem_erase found))
    refine ⟨⟨best :: returned.erase best, (List.perm_cons_erase member).symm.trans all,
      route.trans sequential.symm⟩, fun call found => ⟨_, route, ?_⟩⟩
    exact smallest call (all.mem_iff.mpr found)

/-- Two messages of peer 1 overlap, and both threads come to `add_new_route`. The
one with ttl 3 adds its route first, and the other one adds none. -/
theorem handled_in_some_order_overlapping :
    ∃ d, UndisturbedRun HelloExternals.plain
        ⟨newNode 2, [helloFrom 9 3324 5, helloFrom 9 4000 3].map Thread.start⟩ d ∧
      d.tokens = [] ∧
      (∃ order, order.Perm [helloFrom 9 3324 5, helloFrom 9 4000 3] ∧
        d.state.routingTable.route [1] =
          (handleAll .plain (newNode 2) order).routingTable.route [1]) ∧
      ∀ call ∈ [helloFrom 9 3324 5, helloFrom 9 4000 3], ∃ entry,
        d.state.routingTable.route [1] = some entry ∧ entry.2 ≤ call.ttl := by
  have executed : ((system .plain).execAdmitted (fun server thread => ¬ Overtaken server thread)
      [0, 0, 0, 0, 0, 0, 0, 0, 1, 0]
      ⟨newNode 2, [helloFrom 9 3324 5, helloFrom 9 4000 3].map Thread.start⟩).map
        (fun d => d.tokens.length) = some 0 := by
    decide +kernel
  obtain ⟨d, run, count⟩ := Option.map_eq_some_iff.mp executed
  have run : UndisturbedRun HelloExternals.plain
      ⟨newNode 2, [helloFrom 9 3324 5, helloFrom 9 4000 3].map Thread.start⟩ d :=
    openRun_of_execAdmitted run
  have finished : d.tokens = [] := List.length_eq_zero_iff.mp count
  have accepts : ∀ call ∈ [helloFrom 9 3324 5, helloFrom 9 4000 3],
      Accepts HelloExternals.plain (newNode 2) call.message :=
    List.forall_mem_cons.mpr ⟨.inr ⟨(1, 9), rfl, by decide⟩,
      List.forall_mem_singleton.mpr (.inr ⟨(1, 9), rfl, by decide⟩)⟩
  exact ⟨d, run, finished, handled_in_some_order rfl (by decide) accepts run finished⟩

/-- Two messages of peer 1 overlap: the one with ttl 3 is lost, which no order of
handling them one after another does. -/
theorem better_route_lost :
    (∀ call ∈ [helloFrom 9 3324 5, helloFrom 9 4000 3],
        call.message.senderId = [1] ∧
          HelloExternals.plain.Verifies (newNode 2).x509Store call.message.x509Certificate) ∧
      ∃ d, (system .plain).Run
          ⟨newNode 2, [helloFrom 9 3324 5, helloFrom 9 4000 3].map Thread.start⟩ d ∧
        d.tokens = [] ∧
        ∀ order, order.Perm [helloFrom 9 3324 5, helloFrom 9 4000 3] →
          d.state.routingTable.route [1] ≠
            (handleAll .plain (newNode 2) order).routingTable.route [1] := by
  refine ⟨List.forall_mem_cons.mpr ⟨⟨rfl, (1, 9), rfl, by decide⟩,
    List.forall_mem_singleton.mpr ⟨rfl, (1, 9), rfl, by decide⟩⟩, ?_⟩
  have executed : ((system .plain).exec [0, 0, 0, 0, 0, 0, 0, 0, 0, 0]
      ⟨newNode 2, [helloFrom 9 3324 5, helloFrom 9 4000 3].map Thread.start⟩).map (fun d =>
        (d.tokens.length, d.state.routingTable.route [1])) = some (0, some (loopback, 5)) := by
    decide +kernel
  have sequential : ∀ order ∈ [helloFrom 9 3324 5, helloFrom 9 4000 3].permutations',
      (handleAll .plain (newNode 2) order).routingTable.route [1] ≠ some (loopback, 5) := by
    decide +kernel
  obtain ⟨d, run, content⟩ := Option.map_eq_some_iff.mp executed
  obtain ⟨count, route⟩ := Prod.mk.inj content
  refine ⟨d, run_of_exec run, List.length_eq_zero_iff.mp count, ?_⟩
  intro order perm same
  exact sequential order (List.mem_permutations'.mpr perm) (same.symm.trans route)

end HelloThreads

end P2PFileSync
