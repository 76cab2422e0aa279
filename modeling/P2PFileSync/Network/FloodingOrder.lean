import Mathlib.Combinatorics.SimpleGraph.CycleGraph
import Mathlib.Combinatorics.SimpleGraph.Metric
import P2PFileSync.Network.Flooding

/-!
# When a packet without a route arrives

A node acts on the first copy it reads, so the order of the deliveries decides
with which ttl it sends the packet on. The copy that came a long way round may be
first, and the copy on the shortest way is then dropped as a duplicate
(`slow_copy_first`). So a ttl above the distance is not enough.

Where a spread over the network can die out before the receiver, some order of
the deliveries follows it: every node reads the copy with its number first
(`Stalled`). With `Spread.diesOut` this decides when a packet arrives in every
order (`flooding_delivers`).
-/

set_option autoImplicit false

namespace P2PFileSync

universe u

namespace Network

open SimpleGraph (DiesOut Walk)
open SimpleGraph.Walk (Approach)

variable {ι : Type u} [DecidableEq ι] {net : Network ι} {G : SimpleGraph ι}

/-! ## An order in which a packet gets lost -/

section Stall

variable (net G)

/-- This token brings a copy to the node with the number of the node as ttl. -/
def Due (left : ι → ℕ) (m : ι) : InFlight ι → Prop
  | .task owner _ copy ipAddr => net.connect owner ipAddr = some m ∧ copy.ttl.toNat = left m + 1
  | .frame dst _ copy => dst = m ∧ copy.ttl.toNat = left m

/-- The node has processed the packet, or the copy with its number will come. -/
def Coming (signature : Bytes) (left : ι → ℕ) (c : Config ι) (m : ι) : Prop :=
  Processed signature c.state m ∨ ∃ token ∈ c.tokens, Due net left m token

/-- Only a numbered node gets a copy that has not expired there. -/
def Within (left : ι → ℕ) : InFlight ι → Prop
  | .task owner _ copy ipAddr =>
      copy.ttl ≠ 0 ∧ ∀ m, net.connect owner ipAddr = some m → 1 < copy.ttl.toNat → left m ≠ 0
  | .frame dst _ copy => copy.ttl ≠ 0 → left dst ≠ 0

/-- Firing this token lets no node act on a copy that has not the number of the
node. -/
def Timely (left : ι → ℕ) (s : NetState ι) : InFlight ι → Prop
  | .task _ _ _ _ => True
  | .frame dst _ copy => Passes (s.node dst) copy → copy.ttl.toNat = left dst

/-- A flooding in which every node that acted on a copy acted on the one with its
number. -/
structure Stalled (v r : ι) (msg : SignedProtoMessage) (left : ι → ℕ) (c : Config ι) : Prop where
  neighbours : Neighbours net G c.state
  receiver : (c.state.node r).deviceId = msg.receiver
  room : ∀ n, 0 < (c.state.node n).packetCache.maxCacheSize
  same : ∀ token ∈ c.tokens, msg.SamePacket token.msg
  within : ∀ token ∈ c.tokens, Within net left token
  numbered : ∀ n, Processed msg.signature c.state n → left n ≠ 0
  start : left v ≠ 0 → Coming net msg.signature left c v
  next : ∀ n m, Processed msg.signature c.state n → G.Adj n m → left n = left m + 1 →
    left m ≠ 0 → Coming net msg.signature left c m
  unsubmitted : ¬ Submitted msg c.state r

end Stall

section Step

variable {v r : ι} {msg : SignedProtoMessage} {left : ι → ℕ} {s t : NetState ι} {c d : Config ι}
  {token : InFlight ι} {produced : List (InFlight ι)}

/-- The copy with the number of a node is read there, or comes nearer. -/
theorem Due.fired {m : ι} (due : Due net left m token) (numbered : left m ≠ 0)
    (fired : Fired net s token t produced) (same : msg.SamePacket token.msg) :
    Processed msg.signature t m ∨ ∃ new ∈ produced, Due net left m new := by
  cases token with
  | task owner machinePort copy ipAddr =>
      obtain ⟨accepts, number⟩ := due
      cases fired with
      | sent accepted =>
          obtain rfl := Option.some.inj (accepted.symm.trans accepts)
          have alive : copy.ttl ≠ 0 := by
            intro zero
            rw [zero] at number
            cases number
          have decrement := SignedProtoMessage.forwarded_ttl machinePort alive
          exact .inr ⟨_, List.mem_singleton_self _, rfl, by omega⟩
      | refused refusal =>
          rw [accepts] at refusal
          cases refusal
  | frame dst sin copy =>
      obtain ⟨rfl, number⟩ := due
      have alive : copy.ttl ≠ 0 := by
        intro zero
        rw [zero] at number
        exact numbered number.symm
      exact .inl (processed_of_read fired alive same)

theorem Coming.fires {m : ι} (coming : Coming net msg.signature left c m) (numbered : left m ≠ 0)
    (same : msg.SamePacket token.msg) {rest : List (InFlight ι)}
    (perm : c.tokens.Perm (token :: rest)) (tokens : d.tokens = rest ++ produced)
    (fired : Fired net c.state token d.state produced) :
    Coming net msg.signature left d m := by
  rcases coming with processed | ⟨other, member, due⟩
  · exact .inl (processed.fired fired same)
  · rcases List.mem_cons.mp (perm.mem_iff.mp member) with rfl | later
    · refine (due.fired numbered fired same).imp_right fun ⟨new, fresh, due⟩ => ?_
      exact ⟨new, tokens ▸ List.mem_append_right _ fresh, due⟩
    · exact .inr ⟨other, tokens ▸ List.mem_append_left _ later, due⟩

/-- What a timely token produces stays within the numbered nodes. -/
theorem Within.new (diesOut : DiesOut G v r msg.ttl.toNat left) (neighbours : Neighbours net G s)
    (within : Within net left token) (timely : Timely left s token)
    (fired : Fired net s token t produced) {new : InFlight ι} (fresh : new ∈ produced) :
    Within net left new := by
  cases fired with
  | @sent owner machinePort copy ipAddr dst accepted =>
      obtain ⟨alive, numbered⟩ := within
      rw [List.mem_singleton.mp fresh]
      have decrement := SignedProtoMessage.forwarded_ttl machinePort alive
      intro more
      have positive : (copy.forwarded machinePort).ttl.toNat ≠ 0 := fun zero =>
        more (UInt32.toNat_inj.mp zero)
      exact numbered dst accepted (by omega)
  | refused _ => cases fresh
  | dropped _ => cases fresh
  | @passed dst sin copy tasks packetCache passes inserted dispatched =>
      obtain ⟨ipAddr, m, rfl, accepted, adjacent⟩ := neighbours.destination dispatched fresh
      refine ⟨passes.1, ?_⟩
      intro n accepts more
      obtain rfl := Option.some.inj (accepted.symm.trans accepts)
      exact (diesOut.sentOn dst (timely passes ▸ more)).2 m adjacent

/-- The receiver is not numbered, so no step submits the packet to its handler. -/
theorem not_submitted_of_fired (unnumbered : left r = 0) (within : Within net left token)
    (fired : Fired net s token t produced) (before : ¬ Submitted msg s r) :
    ¬ Submitted msg t r := by
  rintro ⟨entry, logged, here, handled, same⟩
  cases fired with
  | sent | refused => exact before ⟨entry, logged, here, handled, same⟩
  | dropped _ =>
      rcases List.mem_append.mp logged with old | new
      · exact before ⟨entry, old, here, handled, same⟩
      · rw [List.mem_singleton.mp new] at handled
        cases handled
  | passed passes _ _ =>
      rcases List.mem_append.mp logged with old | new
      · exact before ⟨entry, old, here, handled, same⟩
      · rw [List.mem_singleton.mp new] at here
        subst here
        exact within passes.1 unnumbered

/-- Every timely step goes on losing the packet. -/
theorem Stalled.fires (diesOut : DiesOut G v r msg.ttl.toNat left)
    (stalled : Stalled net G v r msg left c) (timely : Timely left c.state token)
    (fires : net.system.Fires c token d) : Stalled net G v r msg left d := by
  obtain ⟨rest, produced, perm, tokens, fired⟩ := fired_of_fires fires
  have member : token ∈ c.tokens := fires.mem
  have same := stalled.same token member
  have within := stalled.within token member
  have members : ∀ new ∈ d.tokens, new ∈ c.tokens ∨ new ∈ produced := by
    intro new found
    rw [tokens] at found
    exact (List.mem_append.mp found).imp_left fun old =>
      perm.mem_iff.mpr (List.mem_cons_of_mem _ old)
  refine ⟨stalled.neighbours.fired fired, (fired.node_frame r).1.trans stalled.receiver,
    fun n => (fired.node_frame n).2.2.2 ▸ stalled.room n, ?_, ?_, ?_, ?_, ?_,
    not_submitted_of_fired diesOut.receiver within fired stalled.unsubmitted⟩
  · intro new found
    rcases members new found with old | fresh
    · exact stalled.same new old
    · exact fired.samePacket fresh same
  · intro new found
    rcases members new found with old | fresh
    · exact stalled.within new old
    · exact Within.new diesOut stalled.neighbours within timely fired fresh
  · intro n processed
    by_cases before : Processed msg.signature c.state n
    · exact stalled.numbered n before
    · obtain ⟨_, _, _, _, rfl, passes, _⟩ := passed_of_processed fired before processed
      exact within passes.1
  · intro numbered
    exact (stalled.start numbered).fires numbered same perm tokens fired
  · intro n m processed adjacent more numbered
    by_cases before : Processed msg.signature c.state n
    · exact (stalled.next n m before adjacent more numbered).fires numbered same perm tokens fired
    · obtain ⟨_, copy, tasks, _, rfl, passes, _, dispatched, _, rfl⟩ :=
        passed_of_processed fired before processed
      have number : copy.ttl.toNat = left n := timely passes
      have elsewhere : n ≠ r := by
        rintro rfl
        exact within passes.1 diesOut.receiver
      have apart := (diesOut.sentOn n (by omega)).1
      obtain ⟨ipAddr, waits, accepted⟩ := stalled.neighbours.reaches dispatched
        (same.receiver.trans stalled.receiver.symm) elsewhere adjacent
        (fun near => absurd near apart)
      exact .inr ⟨.task n (c.state.node n).port copy ipAddr,
        tokens ▸ List.mem_append_right _ waits, accepted, number.trans more⟩

omit [DecidableEq ι] in
/-- As long as something is in flight, a token is timely. Otherwise no copy with
the number of its node were on the way, so every numbered node had processed the
packet, and every frame would be dropped. -/
theorem Stalled.exists_timely (diesOut : DiesOut G v r msg.ttl.toNat left)
    (stalled : Stalled net G v r msg left c) (waiting : c.tokens ≠ []) :
    ∃ token ∈ c.tokens, Timely left c.state token := by
  by_contra untimely
  have came : ∀ m, Coming net msg.signature left c m → Processed msg.signature c.state m := by
    rintro m (processed | ⟨token, member, due⟩)
    · exact processed
    · refine absurd ⟨token, member, ?_⟩ untimely
      cases token with
      | task => trivial
      | frame =>
          obtain ⟨rfl, number⟩ := due
          exact fun _ => number
  have all : ∀ n, left n ≠ 0 → Processed msg.signature c.state n := by
    intro n numbered
    have bound := diesOut.most n
    refine diesOut.numbered_induction (came v (stalled.start ?_)) ?_ numbered
    · rw [diesOut.start]
      omega
    · intro m p numbered adjacent more processed
      exact came m (stalled.next p m processed adjacent more numbered)
  obtain ⟨token, member⟩ := List.exists_mem_of_ne_nil _ waiting
  refine untimely ⟨token, member, ?_⟩
  cases token with
  | task => trivial
  | frame dst sin copy =>
      intro passes
      have processed := all dst (stalled.within _ member passes.1)
      exact absurd ((stalled.same _ member).signature ▸ processed) passes.2

/-- Some order of the deliveries follows a spread that dies out before the
receiver. -/
theorem exists_run_of_diesOut (diesOut : DiesOut G v r msg.ttl.toNat left)
    (stalled : Stalled net G v r msg left c)
    (accessible : Acc (fun d c => net.system.Step c d) c) :
    ∃ d, net.system.Run c d ∧ d.tokens = [] ∧ ¬ Submitted msg d.state r := by
  have advance : ∀ c, Stalled net G v r msg left c → c.tokens ≠ [] →
      ∃ d, net.system.Step c d ∧ Stalled net G v r msg left d := by
    intro c stalled waiting
    obtain ⟨token, member, timely⟩ := stalled.exists_timely diesOut waiting
    have enabled : (net.system.fire c.state token).isSome := fire_isSome fun dst _ _ _ _ =>
      FIFOCache.not_frontUndefined_of_pos (stalled.room dst)
    obtain ⟨⟨state, produced⟩, outcome⟩ := Option.isSome_iff_exists.mp enabled
    obtain ⟨d, fires, _⟩ := TokenSystem.exists_fires member outcome
    exact ⟨d, ⟨token, fires⟩, stalled.fires diesOut timely fires⟩
  obtain ⟨d, run, stalled, done⟩ := TokenSystem.exists_emptied advance accessible stalled
  exact ⟨d, run, done, stalled.unsubmitted⟩

end Step

/-! ## Arrival in every order -/

section Delivery

variable {v r : ι} {sin : SockaddrIn} {msg : SignedProtoMessage} {c : Config ι}

omit [DecidableEq ι] in
/-- A flooding at its start: no node has a number. -/
theorem Spread.initial (neighbours : Neighbours net G c.state)
    (receiver : (c.state.node r).deviceId = msg.receiver)
    (room : ∀ n, 0 < (c.state.node n).packetCache.maxCacheSize)
    (unseen : ∀ n, msg.signature ∉ (c.state.node n).packetCache.cacheMap)
    (start : c.tokens = [.frame v sin msg]) :
    Spread net G v r sin msg (fun _ => 0) c where
  neighbours := neighbours
  receiver := receiver
  room := room
  same token member := by
    rw [start] at member
    rw [List.mem_singleton.mp member]
    exact .refl msg
  origin token member := by
    rw [start] at member
    rw [List.mem_singleton.mp member]
    exact .inl ⟨rfl, rfl⟩
  processed n := iff_of_false (fun other => other rfl) (unseen n)
  start := .inr ⟨start, fun _ => rfl⟩
  most _ := Nat.zero_le _
  first _ _ numbered := absurd rfl numbered
  sentOn _ _ numbered := absurd numbered (Nat.not_lt_zero _)
  submitted processed := absurd processed (unseen r)

omit [DecidableEq ι] in
/-- A flooding at its start, seen from numbers with which it dies out. -/
theorem Stalled.initial {left : ι → ℕ} (diesOut : DiesOut G v r msg.ttl.toNat left)
    (neighbours : Neighbours net G c.state) (receiver : (c.state.node r).deviceId = msg.receiver)
    (room : ∀ n, 0 < (c.state.node n).packetCache.maxCacheSize)
    (unseen : ∀ n, msg.signature ∉ (c.state.node n).packetCache.cacheMap)
    (unsubmitted : ¬ Submitted msg c.state r) (start : c.tokens = [.frame v sin msg]) :
    Stalled net G v r msg left c where
  neighbours := neighbours
  receiver := receiver
  room := room
  same token member := by
    rw [start] at member
    rw [List.mem_singleton.mp member]
    exact .refl msg
  within token member := by
    rw [start] at member
    rw [List.mem_singleton.mp member]
    intro alive zero
    exact alive (UInt32.toNat_inj.mp (diesOut.start.symm.trans zero))
  numbered n processed := absurd processed (unseen n)
  start _ := .inr ⟨.frame v sin msg, start ▸ List.mem_singleton_self _, rfl, diesOut.start.symm⟩
  next n _ processed := absurd processed (unseen n)
  unsubmitted := unsubmitted

/-- **When a packet without a route reaches its receiver.** It does so in every
order of the deliveries exactly if no spread with its ttl dies out before the
receiver. So it does when the receiver has a neighbour `u` that can be approached
and the ttl exceeds every way to the receiver over an approach of `u`: of one
neighbour, not of all. And every run goes on until nothing is in flight. -/
theorem flooding_delivers (neighbours : Neighbours net G c.state)
    (receiver : (c.state.node r).deviceId = msg.receiver)
    (unseen : ∀ n, msg.signature ∉ (c.state.node n).packetCache.cacheMap)
    (unsubmitted : ¬ Submitted msg c.state r)
    (room : ∀ n, 0 < (c.state.node n).packetCache.maxCacheSize)
    (start : c.tokens = [.frame v sin msg]) :
    ((∀ d, net.system.Run c d → d.tokens = [] → Submitted msg d.state r) ↔
        ¬ ∃ left, DiesOut G v r msg.ttl.toNat left) ∧
      (∀ u, G.Adj u r → ∀ way : G.Walk v u, Approach r way →
        (∀ path : G.Walk v u, Approach r path → path.length + 1 < msg.ttl.toNat) →
          ∀ d, net.system.Run c d → d.tokens = [] → Submitted msg d.state r) ∧
      ∀ d, net.system.Run c d → ∃ e, net.system.Run d e ∧ e.tokens = [] := by
  have unexpired : ∀ token ∈ c.tokens, Unexpired token := by
    intro token member
    rw [start] at member
    rw [List.mem_singleton.mp member]
    trivial
  have spreads : ∀ {d}, net.system.Run c d → ∃ left, Spread net G v r sin msg left d := fun run =>
    run.preserves (fun c => ∃ left, Spread net G v r sin msg left c)
      (fun _ _ ⟨_, spread⟩ ⟨_, fires⟩ => spread.fires fires)
      ⟨_, .initial neighbours receiver room unseen start⟩
  have arrives : (¬ ∃ left, DiesOut G v r msg.ttl.toNat left) →
      ∀ d, net.system.Run c d → d.tokens = [] → Submitted msg d.state r := by
    intro never d run done
    obtain ⟨left, spread⟩ := spreads run
    by_contra missing
    exact never ⟨left, spread.diesOut done fun processed => missing (spread.submitted processed)⟩
  refine ⟨⟨?_, arrives⟩, ?_, ?_⟩
  · rintro always ⟨left, diesOut⟩
    obtain ⟨d, run, done, missing⟩ := exists_run_of_diesOut diesOut
      (.initial diesOut neighbours receiver room unseen unsubmitted start)
      (acc_of_unexpired unexpired)
    exact missing (always d run done)
  · intro u near way approach enough
    refine arrives ?_
    rintro ⟨left, diesOut⟩
    have short := enough way approach
    obtain ⟨path, reaches, long⟩ := diesOut.exists_long_approach (by omega) near approach
    have bound := enough path reaches
    omega
  · intro d run
    obtain ⟨e, rest, terminal⟩ := TokenSystem.exists_terminal
      (acc_of_unexpired (run.preserves _ (fun _ _ => unexpired_of_step) unexpired))
    obtain ⟨left, spread⟩ := spreads (run.trans rest)
    refine ⟨e, rest, terminal.tokens_eq_nil fun token _ => fire_isSome ?_⟩
    intro dst _ _ _ _
    exact FIFOCache.not_frontUndefined_of_pos (spread.room dst)

end Delivery

/-! ## A slow copy -/

/-- Node 0 is a neighbour of 1 and 3, these are neighbours of each other, and 2
is a neighbour of 1. -/
def detourNeighbours : Fin 4 → List (Fin 4)
  | 0 => [1, 3]
  | 1 => [0, 2, 3]
  | 2 => [1]
  | 3 => [0, 1]

def detourGraph : SimpleGraph (Fin 4) where
  Adj n m := m ∈ detourNeighbours n
  symm := ⟨by decide⟩
  loopless := ⟨by decide⟩

instance : DecidableRel detourGraph.Adj := fun n m =>
  inferInstanceAs (Decidable (m ∈ detourNeighbours n))

/-- Fresh nodes that know their neighbours. -/
def detour : NetState (Fin 4) := neighbourState detourNeighbours 1

theorem detour_neighbours : Neighbours (localhost 4) detourGraph detour where
  distinct := by decide
  entries := by decide
  routes := by decide

/-- The way from node 0 to node 2 over node 1. -/
def detourWay : detourGraph.Walk 0 2 :=
  .cons (show detourGraph.Adj 0 1 by decide) (.cons (show detourGraph.Adj 1 2 by decide) .nil)

/-- Nodes 0 and 2 are at distance two. -/
theorem detour_dist : detourGraph.dist 0 2 = 2 := by
  have near : detourGraph.dist 0 2 ≤ 2 := SimpleGraph.dist_le detourWay
  have far : 1 < detourGraph.dist 0 2 :=
    detourWay.reachable.one_lt_dist_of_ne_of_not_adj (by decide) (by decide)
  omega

/-- The copy of node 3 reaches node 1 before the copy of node 0, with ttl 1. Node
1 broadcasts it with ttl 0 and drops the other copy, and the packet never
arrives, although its ttl 3 is above the distance 2. -/
theorem slow_copy_first :
    Neighbours (localhost 4) detourGraph detour ∧
      (detour.node 2).deviceId = (packet [9]).receiver ∧
      (∀ n, (detour.node n).packetCache = .new 1) ∧ detourGraph.dist 0 2 = 2 ∧
      ∃ d, (localhost 4).system.Run
          ⟨detour, [.frame 0 loopbackSin { packet [9] with ttl := 3 }]⟩ d ∧
        d.tokens = [] ∧ ¬ Submitted { packet [9] with ttl := 3 } d.state 2 := by
  have outcome : ((localhost 4).system.exec ([0, 1, 1, 2, 2] ++ List.replicate 10 0)
      ⟨detour, [.frame 0 loopbackSin { packet [9] with ttl := 3 }]⟩).map (fun d =>
        (d.tokens, d.state.log.filter fun entry => entry.dst = 2 ∧ entry.handled)) =
          some ([], []) := by
    decide +kernel
  obtain ⟨d, executed, ended⟩ := Option.map_eq_some_iff.mp outcome
  obtain ⟨done, unhandled⟩ := Prod.mk.inj ended
  refine ⟨detour_neighbours, rfl, fun _ => rfl, detour_dist, d,
    TokenSystem.run_of_exec executed, done, ?_⟩
  rintro ⟨entry, logged, here, handled, _⟩
  exact List.filter_eq_nil_iff.mp unhandled entry logged (decide_eq_true ⟨here, handled⟩)

/-! ## Only one side is short enough -/

/-- Five nodes in a ring. -/
def ring : NetState (Fin 5) := neighbourState (fun i => [i - 1, i + 1]) 1

theorem ring_neighbours : Neighbours (localhost 5) (SimpleGraph.cycleGraph 5) ring where
  distinct := by decide
  entries := by decide
  routes := by decide

/-- The way from node 0 to node 1 over their edge. -/
def ringWay : (SimpleGraph.cycleGraph 5).Walk 0 1 := .cons (by decide) .nil

theorem ringWay_approach : Approach 2 ringWay where
  isPath := (Walk.cons_isPath_iff _ _).mpr ⟨.nil, by decide⟩
  avoids := by decide
  inner := by decide

/-- Node 1 can be approached from node 0 over their edge only: on the other side
lies node 3, a neighbour of node 2. -/
theorem ring_approach {path : (SimpleGraph.cycleGraph 5).Walk 0 1} (approach : Approach 2 path) :
    path.length ≤ 1 := by
  have neighbours : ∀ b, (SimpleGraph.cycleGraph 5).Adj 0 b → b = 1 ∨ b = 4 := by decide
  have onward : ∀ b, (SimpleGraph.cycleGraph 5).Adj 4 b → b = 0 ∨ b = 3 := by decide
  obtain ⟨isPath, _, inner⟩ := approach
  cases path with
  | @cons _ b _ edge rest =>
      obtain ⟨isPath, new⟩ := (Walk.cons_isPath_iff edge rest).mp isPath
      rcases neighbours b edge with rfl | rfl
      · have trivial := Walk.length_eq_zero_iff.mpr (Walk.isPath_iff_nil.mp isPath)
        rw [Walk.length_cons, trivial]
      · cases rest with
        | @cons _ b _ edge rest =>
            rcases onward b edge with rfl | rfl
            · exact absurd (List.mem_cons_of_mem _ rest.start_mem_support) new
            · exact absurd (by decide) (inner 3 (List.mem_cons_of_mem _
                (List.mem_cons_of_mem _ rest.start_mem_support)) (by decide))

/-- With ttl 3 a packet from node 0 reaches node 2 in every order, also when the
copies go round the other side of the ring first, which is too long for it. -/
theorem flooding_delivers_ring :
    ∃ d, (localhost 5).system.exec ([0, 0, 1, 1, 2, 2, 3] ++ List.replicate 8 0)
        ⟨ring, [.frame 0 loopbackSin { packet [9] with ttl := 3 }]⟩ = some d ∧
      d.tokens = [] ∧ Submitted { packet [9] with ttl := 3 } d.state 2 := by
  have runs : ((localhost 5).system.exec ([0, 0, 1, 1, 2, 2, 3] ++ List.replicate 8 0)
      ⟨ring, [.frame 0 loopbackSin { packet [9] with ttl := 3 }]⟩).map (fun d => d.tokens) =
        some [] := by
    decide +kernel
  obtain ⟨d, executed, done⟩ := Option.map_eq_some_iff.mp runs
  refine ⟨d, executed, done, (flooding_delivers ring_neighbours rfl (by decide) ?_ (by decide)
    rfl).2.1 1 (by decide) ringWay ringWay_approach ?_ d (TokenSystem.run_of_exec executed) done⟩
  · rintro ⟨entry, logged, _⟩
    cases logged
  · intro path approach
    have short := ring_approach approach
    exact Nat.lt_of_le_of_lt (Nat.succ_le_succ short) (by decide)

end Network

end P2PFileSync
