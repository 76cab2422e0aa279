import P2PFileSync.Network.Model
import P2PFileSync.Packet.WireCodec

/-!
# How relaying uses up the ttl

Sending a packet takes one from its ttl and reading it submits nothing when the
ttl is zero. Two results follow for any topology and any routing tables.

* `relaying_terminates`: every run is finite, although a broadcast turns one
  frame into many and a cache may forget a packet. The decrement never runs at
  zero.
* `ttl_in_range`: a frame in flight has a ttl from 1 to 9 as long as no packet
  with ttl 1 is broadcast. The broadcast branch does not look at the ttl, and a
  broadcast at ttl 1 sends frames that every receiver drops
  (`transmits_expired`).
-/

set_option autoImplicit false

namespace P2PFileSync

universe u

namespace Network

variable {ι : Type u} [DecidableEq ι] {net : Network ι}

/-! ## Termination -/

/-- A waiting task carries a packet that has not expired. -/
def Unexpired : InFlight ι → Prop
  | .task _ _ msg _ => msg.ttl ≠ 0
  | .frame _ _ _ => True

/-- How the ttl passes on from a token to what it produces: a frame submits
tasks for its packet only before it has expired, and a task sends a frame whose
ttl is smaller by exactly one. -/
inductive PassesOn : InFlight ι → InFlight ι → Prop where
  | relay {dst : ι} {sin : SockaddrIn} {msg : SignedProtoMessage} {machinePort : UInt16}
      {ipAddr : IPAddress} (alive : msg.ttl ≠ 0) :
      PassesOn (.frame dst sin msg) (.task dst machinePort msg ipAddr)
  | send {owner dst : ι} {machinePort : UInt16} {sin : SockaddrIn} {msg sent : SignedProtoMessage}
      {ipAddr : IPAddress} (decrement : sent.ttl.toNat + 1 = msg.ttl.toNat) :
      PassesOn (.task owner machinePort msg ipAddr) (.frame dst sin sent)

theorem passesOn_of_fire {s t : NetState ι} {token new : InFlight ι}
    {produced : List (InFlight ι)} (unexpired : Unexpired token)
    (outcome : net.system.fire s token = some (t, produced)) (member : new ∈ produced) :
    PassesOn token new := by
  rcases (fired_of_fire outcome).produced_cases member with
    ⟨_, _, _, _, _, rfl, _, rfl⟩ | ⟨_, _, _, rfl, passes, _, _, _, rfl⟩
  · exact .send (SignedProtoMessage.forwarded_ttl _ unexpired)
  · exact .relay passes.1

/-- Sending and reading use up the ttl in turn. -/
def rank : InFlight ι → ℕ
  | .task _ _ msg _ => 2 * msg.ttl.toNat
  | .frame _ _ msg => 2 * msg.ttl.toNat + 1

omit [DecidableEq ι] in
theorem PassesOn.rank_lt {token new : InFlight ι} (passesOn : PassesOn token new) :
    rank new < rank token := by
  cases passesOn with
  | relay _ => exact Nat.lt_succ_self _
  | send decrement =>
      simp only [rank]
      omega

omit [DecidableEq ι] in
theorem PassesOn.unexpired {token new : InFlight ι} (passesOn : PassesOn token new) :
    Unexpired new := by
  cases passesOn with
  | relay alive => exact alive
  | send _ => trivial

/-- No step makes a task with an expired packet. -/
theorem unexpired_of_step {c d : Config ι} (unexpired : ∀ token ∈ c.tokens, Unexpired token)
    (step : net.system.Step c d) : ∀ token ∈ d.tokens, Unexpired token := by
  obtain ⟨token, fires⟩ := step
  obtain ⟨produced, outcome, members⟩ := fires.mem_tokens
  intro new member
  rcases members new member with old | fresh
  · exact unexpired new old
  · exact (passesOn_of_fire (unexpired token fires.mem) outcome fresh).unexpired

/-- Relaying uses up the ranks of the tokens. -/
theorem acc_of_unexpired {c : Config ι} (unexpired : ∀ token ∈ c.tokens, Unexpired token) :
    Acc (fun e d => net.system.Step d e) c :=
  TokenSystem.acc_of_rank rank (fun _ _ => unexpired_of_step)
    (fun _ start token member _ _ outcome _ fresh =>
      (passesOn_of_fire (start token member) outcome fresh).rank_lt) unexpired

/-- **Relaying terminates.** From any frames in flight, with any routing tables
and caches and in any order, every delivery produces finitely many frames whose
ttl is smaller by one, no ttl wraps, and no run goes on for ever. -/
theorem relaying_terminates (net : Network ι) {c : Config ι}
    (start : ∀ token ∈ c.tokens, Unexpired token) :
    (∀ d, net.system.Run c d → ∀ token ∈ d.tokens, ∀ t produced,
        net.system.fire d.state token = some (t, produced) →
          ∀ new ∈ produced, PassesOn token new) ∧
      ¬ ∃ run : ℕ → Config ι, run 0 = c ∧ ∀ n, net.system.Step (run n) (run (n + 1)) := by
  refine ⟨?_,
    TokenSystem.no_infinite_run (acc_of_unexpired start)⟩
  intro d run token member t produced outcome new fresh
  have unexpired : ∀ token ∈ d.tokens, Unexpired token :=
    run.preserves _ (fun _ _ => unexpired_of_step) start
  exact passesOn_of_fire (unexpired token member) outcome fresh

theorem relaying_terminates_circle :
    (∀ d, (localhost 10).system.Run ⟨circle, [.frame 0 loopbackSin (packet [9])]⟩ d →
      ∀ token ∈ d.tokens, ∀ t produced,
        (localhost 10).system.fire d.state token = some (t, produced) →
          ∀ new ∈ produced, PassesOn token new) ∧
      ¬ ∃ run : ℕ → Config (Fin 10), run 0 = ⟨circle, [.frame 0 loopbackSin (packet [9])]⟩ ∧
          ∀ n, (localhost 10).system.Step (run n) (run (n + 1)) :=
  relaying_terminates (localhost 10) fun token member => by
    rw [List.mem_singleton.mp member]
    trivial

/-! ## The range of the ttl -/

/-- Reading this frame broadcasts a packet with ttl 1 to a node that accepts the
connection. -/
def BroadcastsLast (net : Network ι) (s : NetState ι) : InFlight ι → Prop
  | .task _ _ _ _ => False
  | .frame dst _ msg =>
      msg.ttl = 1 ∧ Passes (s.node dst) msg ∧ (s.node dst).deviceId ≠ msg.receiver ∧
        ∃ entry ∈ (s.node dst).routingTable.getRoutingTable,
          (net.connect dst entry.2.1).isSome

/-- A frame has a ttl from 1 to 9. A task has one from 1 to 10, and at 1 the
connection will be refused. -/
def InRange (net : Network ι) : InFlight ι → Prop
  | .task owner _ msg ipAddr =>
      1 ≤ msg.ttl ∧ msg.ttl ≤ 10 ∧ (msg.ttl = 1 → net.connect owner ipAddr = none)
  | .frame _ _ msg => 1 ≤ msg.ttl ∧ msg.ttl ≤ 9

/-- Sending takes the range of tasks to the range of frames. -/
theorem inRange_forwarded {msg : SignedProtoMessage} {machinePort : UInt16}
    (least : 1 ≤ msg.ttl) (most : msg.ttl ≤ 10) (more : msg.ttl ≠ 1) :
    1 ≤ (msg.forwarded machinePort).ttl ∧ (msg.forwarded machinePort).ttl ≤ 9 := by
  have alive : msg.ttl ≠ 0 := by
    intro zero
    rw [zero] at least
    exact absurd least (by decide)
  have decrement := SignedProtoMessage.forwarded_ttl machinePort alive
  have different : msg.ttl.toNat ≠ 1 := fun one => more (UInt32.toNat_inj.mp one)
  rw [UInt32.le_iff_toNat_le] at least most
  rw [UInt32.le_iff_toNat_le, UInt32.le_iff_toNat_le]
  simp only [UInt32.reduceToNat] at least most ⊢
  omega

/-- A step that is no broadcast at ttl 1 keeps the range. -/
theorem inRange_of_fire {s t : NetState ι} {token new : InFlight ι}
    {produced : List (InFlight ι)} (inRange : InRange net token)
    (admitted : ¬ BroadcastsLast net s token)
    (outcome : net.system.fire s token = some (t, produced)) (member : new ∈ produced) :
    InRange net new := by
  rcases (fired_of_fire outcome).produced_cases member with
    ⟨_, _, _, _, _, rfl, accepted, rfl⟩ | ⟨dst, _, msg, rfl, passes, elsewhere, entry, listed, rfl⟩
  · apply inRange_forwarded inRange.1 inRange.2.1
    intro last
    rw [inRange.2.2 last] at accepted
    cases accepted
  · refine ⟨inRange.1, UInt32.le_trans inRange.2 (by decide), ?_⟩
    intro last
    by_contra accepted
    exact admitted ⟨last, passes, elsewhere, entry, listed, Option.isSome_iff_ne_none.mpr accepted⟩

section Sending

variable {PrivateKey PublicKey : Type} {pb : Protobuf} {ssl : OpenSSL PrivateKey PublicKey}
  {clientPrivKey : ι → PrivateKey}

/-- **Every frame in flight has a ttl from 1 to 9**, in every run from nothing in
flight in which no packet with ttl 1 is broadcast to a node that accepts the
connection. -/
theorem ttl_in_range {c d : Config ι} (start : c.tokens = [])
    (run : net.system.OpenRun (fun s token => ¬ BroadcastsLast net s token)
      (Surroundings pb ssl clientPrivKey) c d) :
    ∀ dst sin msg, .frame dst sin msg ∈ d.tokens → 1 ≤ msg.ttl ∧ msg.ttl ≤ 9 := by
  have inRange : ∀ token ∈ d.tokens, InRange net token := by
    refine run.preserves (fun c => ∀ token ∈ c.tokens, InRange net token) ?_ ?_ ?_
    · intro c d token inRange admitted fires new member
      obtain ⟨produced, outcome, members⟩ := fires.mem_tokens
      rcases members new member with old | fresh
      · exact inRange new old
      · exact inRange_of_fire (inRange token fires.mem) admitted outcome fresh
    · intro c d inRange acts new member
      cases acts with
      | sendPkg n data peer built =>
          rcases List.mem_append.mp member with old | sent
          · exact inRange new old
          · obtain ⟨digest, _, envelope⟩ := sendPkg_eq_ok built
            rw [List.mem_singleton.mp sent, envelope]
            exact ⟨by simp only [signedMessage]; decide, UInt32.le_refl _,
              fun last => absurd last (by simp only [signedMessage]; decide)⟩
      | duplicate copied =>
          rcases List.mem_append.mp member with old | copy
          · exact inRange new old
          · rw [List.mem_singleton.mp copy]
            exact inRange _ copied
      | reroute n routingTable => exact inRange new member
    · rw [start]
      exact fun _ member => absurd member List.not_mem_nil
  exact fun dst sin msg member => inRange _ member

/-- A broadcast at ttl 1 sends a packet whose ttl is zero. -/
theorem transmits_expired {c : Config ι} {token : InFlight ι} (member : token ∈ c.tokens)
    (last : BroadcastsLast net c.state token)
    (defined : ∀ n, ¬ (c.state.node n).packetCache.FrontUndefined) :
    ∃ d, net.system.Run c d ∧ ∃ dst sin msg, .frame dst sin msg ∈ d.tokens ∧ msg.ttl = 0 := by
  cases token with
  | task => exact last.elim
  | frame node sin msg =>
      obtain ⟨one, passes, elsewhere, entry, listed, accepted⟩ := last
      obtain ⟨dst, accepted⟩ := Option.isSome_iff_exists.mp accepted
      obtain ⟨packetCache, inserted⟩ := FIFOCache.isCached_of_not_mem passes.2 (defined node)
      obtain ⟨tasks, dispatched, read⟩ := readPacket_of_passes sin passes inserted
      have waiting : InFlight.task node (c.state.node node).port msg entry.2.1 ∈
          tasks.filterMap (InFlight.ofTask node) := by
        cases dispatched with
        | handle here => exact absurd here elsewhere
        | unicast _ _ alive _ => exact absurd alive (by rw [one]; decide)
        | broadcast _ _ =>
            exact List.mem_filterMap.mpr ⟨_, List.mem_map_of_mem listed, rfl⟩
      have relayed : net.system.fire c.state (.frame node sin msg) = some
          (c.state.deliver { c.state.node node with packetCache := packetCache }
              ⟨node, msg, decide (Passes (c.state.node node) msg), tasks⟩,
            tasks.filterMap (InFlight.ofTask node)) := by
        simp only [system, read, Option.map_some]
      obtain ⟨middle, fires, _, middle_tokens⟩ := TokenSystem.exists_fires member relayed
      obtain ⟨d, sends, _, d_tokens⟩ := TokenSystem.exists_fires (middle_tokens _ waiting)
        (show net.system.fire _ _ = some _ from rfl)
      refine ⟨d, .tail (.single ⟨_, fires⟩) ⟨_, sends⟩, dst, net.sockaddr node,
        msg.forwarded (c.state.node node).port, d_tokens _ ?_, ?_⟩
      · simp only [accepted, Option.map_some, Option.toList_some, List.mem_singleton]
      · change msg.ttl - 1 = 0
        rw [one, UInt32.sub_self]

end Sending

/-- The envelope of the ping, signed with key 7. -/
def sentPing : SignedProtoMessage :=
  signedMessage (WireCodec.protobuf.serializeMessage ping)
    (7 :: WireCodec.protobuf.serializeMessage ping)

/-- Node 9 sends a ping to node 0 of the circle. -/
theorem circle_sendPkg : Surroundings WireCodec.protobuf .keyed (fun _ => 7) ⟨circle, []⟩
    ⟨circle, [.task 9 9 sentPing (addressOf (0 : Fin 10))]⟩ :=
  .sendPkg 9 ping (addressOf (0 : Fin 10)) rfl

/-- A packet that goes round the circle is broadcast when its ttl is 1, and a
frame that expired comes back to node 9. -/
theorem expired_frame_in_flight :
    ∃ c d : Config (Fin 10), c.tokens = [] ∧
      (localhost 10).system.OpenRun (fun _ _ => True)
        (Surroundings WireCodec.protobuf .keyed (fun _ => 7)) c d ∧
      ∃ dst sin msg, .frame dst sin msg ∈ d.tokens ∧ ¬ (1 ≤ msg.ttl ∧ msg.ttl ≤ 9) := by
  have round : ((localhost 10).system.exec (List.replicate 19 0)
      ⟨circle, [.task 9 9 sentPing (addressOf (0 : Fin 10))]⟩).map (fun d => d.tokens) =
        some [.frame 9 loopbackSin { sentPing with ttl := 0, lastForwardPort := 8 }] := by
    decide +kernel
  obtain ⟨d, executed, tokens⟩ := Option.map_eq_some_iff.mp round
  refine ⟨⟨circle, []⟩, d, rfl, .head (.act circle_sendPkg)
    ((TokenSystem.run_of_exec executed).openRun fun _ _ => trivial), 9, loopbackSin, _,
    tokens ▸ List.mem_singleton_self _, by decide⟩

/-- The ping on its first hop. -/
theorem ttl_in_range_ping :
    ∃ d, (localhost 10).system.exec [0]
        ⟨circle, [.task 9 9 sentPing (addressOf (0 : Fin 10))]⟩ = some d ∧
      ∀ dst sin msg, .frame dst sin msg ∈ d.tokens → 1 ≤ msg.ttl ∧ msg.ttl ≤ 9 :=
  have admitted : ¬ BroadcastsLast (localhost 10) circle
      (.task 9 9 sentPing (addressOf (0 : Fin 10))) := fun last => last
  have run : (localhost 10).system.OpenRun (fun s token => ¬ BroadcastsLast (localhost 10) s token)
      (Surroundings WireCodec.protobuf .keyed (fun _ => 7)) ⟨circle, []⟩
      ⟨circle, [.frame 0 loopbackSin (sentPing.forwarded 9)]⟩ :=
    .tail (.single (.act circle_sendPkg)) (.fire admitted ⟨0, rfl, rfl⟩)
  ⟨_, rfl, ttl_in_range rfl run⟩

end Network

end P2PFileSync
