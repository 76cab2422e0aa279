import Mathlib.Algebra.BigOperators.Group.List.Basic
import Mathlib.Algebra.Order.BigOperators.Group.Finset
import P2PFileSync.Network.Duplicates
import P2PFileSync.Network.Relaying

/-!
# What relaying costs

A node that relays a packet submits one task for each entry of its routing table,
or a single one. It does so for a signature at most once while the caches hold
all signatures. So the frames delivered, with those that are still to come, are
at most the packets at the start and, for each signature, the entries of all
routing tables (`relaying_cost`), in every order of the steps.
-/

set_option autoImplicit false

/-- A sum over a list whose keys are distinct is at most the sum of the bounds of
all keys. -/
theorem sum_map_le_of_nodup_keys {α κ : Type*} [DecidableEq κ] {f : α → ℕ} {key : α → κ}
    {bound : κ → ℕ} {keys : Finset κ} {items : List α}
    (bounded : ∀ item ∈ items, f item ≤ bound (key item)) (distinct : (items.map key).Nodup)
    (within : ∀ item ∈ items, key item ∈ keys) :
    (items.map f).sum ≤ ∑ k ∈ keys, bound k := by
  have each : (items.map f).sum ≤ (items.map fun item => bound (key item)).sum :=
    List.sum_le_sum bounded
  have whole : (items.map fun item => bound (key item)).sum =
      ∑ k ∈ (items.map key).toFinset, bound k := by
    rw [List.sum_toFinset bound distinct, List.map_map]
    rfl
  have subset : (items.map key).toFinset ⊆ keys := by
    intro k member
    obtain ⟨item, listed, rfl⟩ := List.mem_map.mp (List.mem_toFinset.mp member)
    exact within item listed
  calc (items.map f).sum ≤ ∑ k ∈ (items.map key).toFinset, bound k := whole ▸ each
    _ ≤ ∑ k ∈ keys, bound k := Finset.sum_le_sum_of_subset subset

namespace P2PFileSync

universe u

namespace Network

variable {ι : Type u} [DecidableEq ι] {net : Network ι}

/-- The most tasks a node submits for one packet. -/
def fanOut (server : ServerContext) : ℕ := max 1 server.routingTable.getRoutingTable.length

theorem length_le_fanOut {server : ServerContext} {msg : SignedProtoMessage}
    {sin : SockaddrIn} {tasks : List Task} (dispatched : Dispatched server msg sin tasks) :
    tasks.length ≤ fanOut server := by
  cases dispatched with
  | handle | unicast => exact Nat.le_max_left _ _
  | broadcast =>
      rw [List.length_map]
      exact Nat.le_max_right _ _

/-- The tasks submitted so far. -/
def submitted (log : List (Delivery ι)) : ℕ := (log.map fun entry => entry.tasks.length).sum

omit [DecidableEq ι] in
theorem submitted_append (log : List (Delivery ι)) (entry : Delivery ι) :
    submitted (log ++ [entry]) = submitted log + entry.tasks.length := by
  simp only [submitted, List.map_append, List.map_cons, List.map_nil, List.sum_append,
    List.sum_cons, List.sum_nil, Nat.add_zero]

/-- A step takes a token away, and pays for what it delivers and produces with
what it submits. -/
theorem Fired.cost {s t : NetState ι} {token : InFlight ι} {produced : List (InFlight ι)}
    (fired : Fired net s token t produced) :
    t.log.length + produced.length + submitted s.log ≤ s.log.length + submitted t.log + 1 := by
  cases fired with
  | sent =>
      rw [List.length_singleton]
      omega
  | refused =>
      rw [List.length_nil]
      omega
  | dropped =>
      simp only [NetState.deliver, List.length_append, List.length_singleton, submitted_append,
        List.length_nil]
      omega
  | @passed dst sin msg tasks =>
      have fewer := List.length_filterMap_le (InFlight.ofTask dst) tasks
      simp only [NetState.deliver, List.length_append, List.length_singleton, submitted_append]
      omega

/-- What a delivery submits is within what its node has to give. -/
theorem Fired.tasks_le {s t : NetState ι} {token : InFlight ι} {produced : List (InFlight ι)}
    (fired : Fired net s token t produced) {entry : Delivery ι} (member : entry ∈ t.log) :
    entry ∈ s.log ∨ entry.tasks.length ≤ fanOut (s.node entry.dst) := by
  cases fired with
  | sent | refused => exact .inl member
  | dropped =>
      rcases List.mem_append.mp member with old | new
      · exact .inl old
      · rw [List.mem_singleton.mp new]
        exact .inr (Nat.zero_le _)
  | passed _ _ dispatched =>
      rcases List.mem_append.mp member with old | new
      · exact .inl old
      · rw [List.mem_singleton.mp new]
        exact .inr (length_le_fanOut dispatched)

/-- Each delivery is paid for by a packet of the start or by a submitted task, and
no entry of the log has more tasks than its node has to give. -/
structure Paid (start : NetState ι) (packets : ℕ) (signatures : Finset Bytes) (c : Config ι) :
    Prop where
  tables : ∀ n, (c.state.node n).routingTable = (start.node n).routingTable
  carried : ∀ token ∈ c.tokens, token.msg.signature ∈ signatures
  paid : c.state.log.length + c.tokens.length ≤ packets + submitted c.state.log
  bounded : ∀ entry ∈ c.state.log, entry.tasks.length ≤ fanOut (start.node entry.dst)

theorem Paid.fires {start : NetState ι} {packets : ℕ} {signatures : Finset Bytes} {c d : Config ι}
    {token : InFlight ι} (paid : Paid start packets signatures c)
    (fires : net.system.Fires c token d) : Paid start packets signatures d := by
  obtain ⟨rest, produced, perm, tokens, fired⟩ := fired_of_fires fires
  refine ⟨?_, ?_, ?_, ?_⟩
  · intro n
    rw [(fired.node_frame n).2.2.1]
    exact paid.tables n
  · intro other member
    rw [tokens] at member
    rcases List.mem_append.mp member with old | new
    · exact paid.carried other (perm.mem_iff.mpr (List.mem_cons_of_mem _ old))
    · rw [fired.signature_eq new]
      exact paid.carried token (perm.mem_iff.mpr List.mem_cons_self)
  · have count : c.tokens.length = rest.length + 1 := perm.length_eq
    have budget := paid.paid
    have cost := fired.cost
    rw [tokens, List.length_append]
    omega
  · intro entry member
    rcases fired.tasks_le member with old | within
    · exact paid.bounded entry old
    · rw [fanOut, paid.tables] at within
      exact within

/-- The node and the signature of the deliveries that passed are distinct. -/
theorem Recorded.nodup_keys {size : ℕ} {signatures : Finset Bytes} {s : NetState ι}
    (recorded : Recorded size signatures s) :
    ((s.log.filter Delivery.passed).map fun entry => (entry.dst, entry.msg.signature)).Nodup := by
  apply List.nodup_iff_count_le_one.mpr
  rintro ⟨n, signature⟩
  have once := List.nodup_iff_count_le_one.mp (recorded.nodup n) signature
  rw [passedAt, List.count, List.countP_map, List.countP_filter] at once
  rw [List.count, List.countP_map, List.countP_filter]
  refine le_trans (List.countP_mono_left ?_) once
  intro entry _ counts
  simp only [Function.comp_apply, Bool.and_eq_true, beq_iff_eq, Prod.mk.injEq,
    decide_eq_true_eq] at counts ⊢
  obtain ⟨⟨here, same⟩, passed⟩ := counts
  exact ⟨same, here, passed⟩

omit [DecidableEq ι] in
/-- Deliveries that did not pass submitted nothing. -/
theorem submitted_filter_passed {log : List (Delivery ι)}
    (acted : ∀ entry ∈ log, entry.tasks ≠ [] → entry.passed = true) :
    submitted log = submitted (log.filter Delivery.passed) := by
  induction log with
  | nil => rfl
  | cons entry log ih =>
      have rest := ih fun other member => acted other (List.mem_cons_of_mem _ member)
      cases passed : entry.passed with
      | true =>
          rw [List.filter_cons_of_pos passed]
          simp only [submitted, List.map_cons, List.sum_cons] at rest ⊢
          rw [rest]
      | false =>
          have nothing : entry.tasks = [] := by
            by_contra some
            rw [acted entry List.mem_cons_self some] at passed
            cases passed
          rw [List.filter_cons_of_neg (by simp [passed]), ← rest]
          simp only [submitted, List.map_cons, List.sum_cons, nothing, List.length_nil,
            Nat.zero_add]

/-- All that was ever submitted, at all nodes and for all signatures. -/
theorem Recorded.submitted_le [Fintype ι] {size : ℕ} {signatures : Finset Bytes}
    {s start : NetState ι} (recorded : Recorded size signatures s)
    (bounded : ∀ entry ∈ s.log, entry.tasks.length ≤ fanOut (start.node entry.dst)) :
    submitted s.log ≤ signatures.card * ∑ n, fanOut (start.node n) := by
  have within : ∀ entry ∈ s.log.filter Delivery.passed,
      (entry.dst, entry.msg.signature) ∈ Finset.univ ×ˢ signatures := by
    intro entry member
    obtain ⟨listed, passed⟩ := List.mem_filter.mp member
    refine Finset.mem_product.mpr ⟨Finset.mem_univ _, recorded.known entry.dst _ ?_⟩
    exact List.mem_map.mpr ⟨entry, List.mem_filter.mpr ⟨listed, by simp [passed]⟩, rfl⟩
  have total : ∑ key ∈ Finset.univ ×ˢ signatures, fanOut (start.node key.1) =
      signatures.card * ∑ n, fanOut (start.node n) := by
    rw [Finset.sum_product]
    simp only [Finset.sum_const, smul_eq_mul]
    exact (Finset.mul_sum _ _ _).symm
  rw [submitted_filter_passed recorded.acted, ← total]
  exact sum_map_le_of_nodup_keys (fun entry member => bounded entry (List.mem_filter.mp member).1)
    recorded.nodup_keys within

/-- **The cost of relaying.** While the caches hold all signatures in flight, every
run delivers at most one frame for each packet at the start and, for each
signature, one for each entry of every routing table, or one for a node with an
empty table. -/
theorem relaying_cost [Fintype ι] {size : ℕ} {signatures : Finset Bytes} {c d : Config ι}
    (fresh : ∀ n, (c.state.node n).packetCache = .new size) (unused : c.state.log = [])
    (few : signatures.card ≤ size) (nonempty : [] ∉ signatures)
    (carried : ∀ token ∈ c.tokens, token.msg.signature ∈ signatures)
    (run : net.system.Run c d) :
    d.state.log.length + d.tokens.length ≤
      c.tokens.length + signatures.card *
        ∑ n, max 1 (c.state.node n).routingTable.getRoutingTable.length := by
  have start : Paid c.state c.tokens.length signatures c ∧ Recorded size signatures c.state := by
    refine ⟨⟨fun _ => rfl, carried, ?_, ?_⟩, recorded_start fresh unused⟩
    · rw [unused, List.length_nil, Nat.zero_add]
      exact Nat.le_add_right _ _
    · rw [unused]
      intro entry member
      cases member
  obtain ⟨paid, recorded⟩ := run.preserves
    (fun e => Paid c.state c.tokens.length signatures e ∧ Recorded size signatures e.state)
    (fun e f holds ⟨token, fires⟩ => by
      obtain ⟨_, _, _, _, fired⟩ := fired_of_fires fires
      have carries : Carries signatures token := by
        have listed := holds.1.carried token fires.mem
        cases token with
        | task => trivial
        | frame => exact listed
      exact ⟨holds.1.fires fires, holds.2.fired few nonempty carries fired⟩) start
  have cost := paid.paid
  have all := recorded.submitted_le paid.bounded
  exact le_trans cost (Nat.add_le_add_left all _)

/-- One packet makes three steps round the circle. -/
theorem relaying_cost_circle :
    ∃ d, (localhost 10).system.Run ⟨circle, [.frame 1 loopbackSin (packet [9])]⟩ d ∧
      d.state.log.length = 2 ∧
      d.state.log.length + d.tokens.length ≤
        1 + ∑ n, max 1 (circle.node n).routingTable.getRoutingTable.length := by
  obtain ⟨d, executed, delivered⟩ : ∃ d, (localhost 10).system.exec [0, 0, 0]
      ⟨circle, [.frame 1 loopbackSin (packet [9])]⟩ = some d ∧ d.state.log.length = 2 :=
    ⟨_, rfl, rfl⟩
  have run := TokenSystem.run_of_exec executed
  have carried : ∀ token ∈ [InFlight.frame (1 : Fin 10) loopbackSin (packet [9])],
      token.msg.signature ∈ ({[9]} : Finset Bytes) := by
    intro token member
    rw [List.mem_singleton.mp member]
    exact Finset.mem_singleton_self _
  have cost := relaying_cost (fun _ => rfl) rfl (le_refl 1) (by decide) carried run
  rw [Finset.card_singleton, Nat.one_mul, List.length_singleton] at cost
  exact ⟨d, run, delivered, cost⟩

end Network

end P2PFileSync
