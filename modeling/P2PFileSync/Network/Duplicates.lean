import P2PFileSync.Network.Model
import P2PFileSync.Packet.WireCodec

/-!
# Every packet once

A fresh cache of size `N` forgets nothing until it has taken in `N` ids. While
the packets a network delivers carry at most `N` signatures, each node's cache
remembers exactly the signatures that passed its duplicate check, so no
signature passes twice at one node (`passes_at_most_once`), whatever else
happens to the packets in flight and to the routing tables.
-/

set_option autoImplicit false

namespace P2PFileSync

universe u

namespace Network

variable {ι : Type u} [DecidableEq ι] {net : Network ι}

/-- The signatures that passed the duplicate check of a node, in order. -/
def passedAt (log : List (Delivery ι)) (n : ι) : List Bytes :=
  (log.filter fun entry => entry.dst = n ∧ entry.passed).map fun entry => entry.msg.signature

theorem passedAt_append (log : List (Delivery ι)) (entry : Delivery ι) (n : ι) :
    passedAt (log ++ [entry]) n =
      passedAt log n ++ if entry.dst = n ∧ entry.passed then [entry.msg.signature] else [] := by
  by_cases counts : entry.dst = n ∧ entry.passed = true
  · simp only [passedAt, List.filter_append, List.map_append, List.filter_cons,
      counts, decide_true, List.filter_nil, if_true, and_self, List.map_cons, List.map_nil]
  · simp only [passedAt, List.filter_append, List.map_append, List.filter_cons, counts,
      decide_false, List.filter_nil, if_false, List.map_nil, Bool.false_eq_true]

theorem passedAt_of_ne {log : List (Delivery ι)} {entry : Delivery ι} {n : ι}
    (different : n ≠ entry.dst) : passedAt (log ++ [entry]) n = passedAt log n := by
  rw [passedAt_append, if_neg (fun counts => different counts.1.symm), List.append_nil]

/-- Each cache remembers exactly what passed, without repetition; only what
passed submitted a task. -/
structure Recorded (size : ℕ) (signatures : Finset Bytes) (s : NetState ι) : Prop where
  remembers : ∀ n, (s.node n).packetCache.Remembers size (passedAt s.log n)
  nodup : ∀ n, (passedAt s.log n).Nodup
  known : ∀ n, ∀ id ∈ passedAt s.log n, id ∈ signatures
  acted : ∀ entry ∈ s.log, entry.tasks ≠ [] → entry.passed = true

/-- At the start nothing has passed. -/
theorem recorded_start {size : ℕ} {signatures : Finset Bytes} {s : NetState ι}
    (fresh : ∀ n, (s.node n).packetCache = .new size) (unused : s.log = []) :
    Recorded size signatures s where
  remembers n := by
    rw [fresh, unused]
    exact FIFOCache.remembers_new size
  nodup n := by
    rw [unused]
    exact List.nodup_nil
  known n id member := by
    rw [unused] at member
    exact absurd member List.not_mem_nil
  acted entry member := by
    rw [unused] at member
    exact absurd member List.not_mem_nil

/-- Dropping a packet is recorded and changes no cache. -/
theorem Recorded.dropped {size : ℕ} {signatures : Finset Bytes} {s : NetState ι}
    (recorded : Recorded size signatures s) (dst : ι) (msg : SignedProtoMessage) :
    Recorded size signatures (s.deliver (s.node dst) ⟨dst, msg, false, []⟩) := by
  have same : ∀ n, passedAt (s.log ++ [⟨dst, msg, false, []⟩]) n = passedAt s.log n := by
    intro n
    rw [passedAt_append, if_neg (fun counts => Bool.false_ne_true counts.2), List.append_nil]
  refine ⟨?_, ?_, ?_, ?_⟩
  · intro n
    rw [NetState.deliver_node_same]
    exact (same n).symm ▸ recorded.remembers n
  · intro n
    exact (same n).symm ▸ recorded.nodup n
  · intro n
    exact (same n).symm ▸ recorded.known n
  · intro entry member acted
    rcases List.mem_append.mp member with old | new
    · exact recorded.acted entry old acted
    · rw [List.mem_singleton.mp new] at acted
      exact absurd rfl acted

/-- A signature that passes has not passed before. -/
theorem Recorded.nodup_concat {size : ℕ} {signatures : Finset Bytes} {s : NetState ι}
    (recorded : Recorded size signatures s) {dst : ι} {msg : SignedProtoMessage}
    (passes : Passes (s.node dst) msg) : (passedAt s.log dst ++ [msg.signature]).Nodup := by
  have new : msg.signature ∉ passedAt s.log dst := fun old =>
    passes.2 (((recorded.remembers dst).mem_cacheMap _).mpr old)
  rw [← List.concat_eq_append]
  exact (recorded.nodup dst).concat new

/-- What has passed and what passes now are among the signatures. -/
theorem Recorded.known_concat {size : ℕ} {signatures : Finset Bytes} {s : NetState ι}
    (recorded : Recorded size signatures s) (dst : ι) {msg : SignedProtoMessage}
    (listed : msg.signature ∈ signatures) :
    ∀ id ∈ passedAt s.log dst ++ [msg.signature], id ∈ signatures := by
  intro id member
  rcases List.mem_append.mp member with old | same
  · exact recorded.known dst id old
  · rw [List.mem_singleton.mp same]
    exact listed

/-- A packet that passes is taken into a cache that still has room for it. -/
theorem Recorded.passed {size : ℕ} {signatures : Finset Bytes} {s : NetState ι}
    (recorded : Recorded size signatures s) (few : signatures.card ≤ size)
    (nonempty : [] ∉ signatures) {dst : ι} {msg : SignedProtoMessage} {tasks : List Task}
    {packetCache : FIFOCache Bytes} (listed : msg.signature ∈ signatures)
    (passes : Passes (s.node dst) msg)
    (inserted : (s.node dst).packetCache.isCached msg.signature = some (false, packetCache)) :
    Recorded size signatures
      (s.deliver { s.node dst with packetCache := packetCache } ⟨dst, msg, true, tasks⟩) := by
  have longer := recorded.nodup_concat passes
  have within := recorded.known_concat dst listed
  have room : (passedAt s.log dst).length < size := by
    have length := List.toFinset_card_of_nodup longer
    have subset := Finset.card_le_card fun id member => within id (List.mem_toFinset.mp member)
    rw [length, List.length_append, List.length_singleton] at subset
    omega
  obtain ⟨cache, taken, next⟩ := (recorded.remembers dst).insert
    (fun old => passes.2 (((recorded.remembers dst).mem_cacheMap _).mpr old)) room
    fun placeholder => nonempty (recorded.known dst _ placeholder)
  obtain rfl : cache = packetCache := by
    rw [taken] at inserted
    cases inserted
    rfl
  have here : passedAt (s.log ++ [⟨dst, msg, true, tasks⟩]) dst =
      passedAt s.log dst ++ [msg.signature] := by
    rw [passedAt_append, if_pos ⟨rfl, rfl⟩]
  have elsewhere : ∀ n, n ≠ dst →
      passedAt (s.log ++ [⟨dst, msg, true, tasks⟩]) n = passedAt s.log n :=
    fun _ different => passedAt_of_ne different
  refine ⟨?_, ?_, ?_, ?_⟩
  · intro n
    by_cases same : n = dst
    · subst same
      rw [NetState.deliver_node_self]
      exact here ▸ next
    · rw [NetState.deliver_node_of_ne same]
      exact elsewhere n same ▸ recorded.remembers n
  · intro n
    by_cases same : n = dst
    · subst same
      exact here ▸ longer
    · exact elsewhere n same ▸ recorded.nodup n
  · intro n
    by_cases same : n = dst
    · subst same
      exact here ▸ within
    · exact elsewhere n same ▸ recorded.known n
  · intro entry member acted
    rcases List.mem_append.mp member with old | new
    · exact recorded.acted entry old acted
    · rw [List.mem_singleton.mp new]

/-- The frame delivered carries one of the signatures. -/
def Carries (signatures : Finset Bytes) : InFlight ι → Prop
  | .task _ _ _ _ => True
  | .frame _ _ msg => msg.signature ∈ signatures

/-- Delivering a packet with one of the signatures keeps the record. -/
theorem Recorded.fired {size : ℕ} {signatures : Finset Bytes} {s t : NetState ι}
    {token : InFlight ι} {produced : List (InFlight ι)} (recorded : Recorded size signatures s)
    (few : signatures.card ≤ size) (nonempty : [] ∉ signatures)
    (carries : Carries signatures token) (fired : Fired net s token t produced) :
    Recorded size signatures t := by
  cases fired with
  | sent | refused => exact recorded
  | dropped _ => exact recorded.dropped _ _
  | passed passes inserted _ => exact recorded.passed few nonempty carries passes inserted

section Sending

variable {PrivateKey PublicKey : Type} {pb : Protobuf} {ssl : OpenSSL PrivateKey PublicKey}
  {clientPrivKey : ι → PrivateKey}

theorem Recorded.surroundings {size : ℕ} {signatures : Finset Bytes} {c d : Config ι}
    (recorded : Recorded size signatures c.state) (acts : Surroundings pb ssl clientPrivKey c d) :
    Recorded size signatures d.state := by
  cases acts with
  | sendPkg | duplicate => exact recorded
  | reroute n routingTable =>
      refine ⟨?_, recorded.nodup, recorded.known, recorded.acted⟩
      intro m
      by_cases same : m = n
      · subst same
        simp only [Function.update_self]
        exact recorded.remembers m
      · simp only [Function.update_of_ne same]
        exact recorded.remembers m

/-- **No packet is handled or relayed twice by one node.** While the frames
delivered carry at most as many signatures as a cache holds, each signature
passes the duplicate check of a node at most once, and tasks are submitted for
it at most once. -/
theorem passes_at_most_once {size : ℕ} {signatures : Finset Bytes} {c d : Config ι}
    (fresh : ∀ n, (c.state.node n).packetCache = .new size) (unused : c.state.log = [])
    (few : signatures.card ≤ size) (nonempty : [] ∉ signatures)
    (run : net.system.OpenRun (fun _ => Carries signatures) (Surroundings pb ssl clientPrivKey) c d)
    (n : ι) (signature : Bytes) :
    (d.state.log.countP fun entry =>
        entry.dst = n ∧ entry.passed ∧ entry.msg.signature = signature) ≤ 1 ∧
      (d.state.log.countP fun entry =>
        entry.dst = n ∧ entry.tasks ≠ [] ∧ entry.msg.signature = signature) ≤ 1 := by
  have recorded : Recorded size signatures d.state := by
    refine run.preserves (fun c => Recorded size signatures c.state) ?_ ?_
      (recorded_start fresh unused)
    · intro c d token recorded carries fires
      obtain ⟨_, _, _, _, fired⟩ := fired_of_fires fires
      exact recorded.fired few nonempty carries fired
    · exact fun c d recorded acts => recorded.surroundings acts
  have once : (d.state.log.countP fun entry =>
      entry.dst = n ∧ entry.passed ∧ entry.msg.signature = signature) ≤ 1 := by
    have count := List.nodup_iff_count_le_one.mp (recorded.nodup n) signature
    rw [passedAt, List.count, List.countP_map, List.countP_filter] at count
    refine le_trans (List.countP_mono_left ?_) count
    intro entry _ counts
    obtain ⟨here, passed, same⟩ := of_decide_eq_true counts
    simp [here, passed, same]
  refine ⟨once, le_trans (List.countP_mono_left ?_) once⟩
  intro entry member counts
  obtain ⟨here, acted, same⟩ := of_decide_eq_true counts
  exact decide_eq_true ⟨here, recorded.acted entry member acted, same⟩

end Sending

/-- A frame is doubled on its way, and the copy is dropped. -/
theorem passes_at_most_once_doubled :
    ∃ d, (localhost 10).system.exec [0, 0]
        ⟨circle, [.frame 0 loopbackSin (packet [9]), .frame 0 loopbackSin (packet [9])]⟩ = some d ∧
      (d.state.log.countP fun entry =>
          entry.dst = 0 ∧ entry.passed ∧ entry.msg.signature = [9]) ≤ 1 ∧
        (d.state.log.countP fun entry =>
          entry.dst = 0 ∧ entry.tasks ≠ [] ∧ entry.msg.signature = [9]) ≤ 1 :=
  have delivered : Carries {[9]} (.frame (0 : Fin 10) loopbackSin (packet [9])) :=
    Finset.mem_singleton_self _
  have run : (localhost 10).system.OpenRun (fun _ => Carries {[9]})
      (Surroundings WireCodec.protobuf .keyed (fun _ => 7))
      ⟨circle, [.frame 0 loopbackSin (packet [9])]⟩ _ :=
    .head (.act (.duplicate (List.mem_singleton_self _)))
      (.head (.fire delivered ⟨0, rfl, rfl⟩) (.head (.fire delivered ⟨0, rfl, rfl⟩) .refl))
  ⟨_, rfl, passes_at_most_once (fun _ => rfl) rfl (le_refl 1) (by decide) run 0 [9]⟩

end Network

end P2PFileSync
