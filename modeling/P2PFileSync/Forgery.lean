import P2PFileSync.ServerContext

/-!
# Forged packets

`read_callback` records the signature of a packet in the duplicate cache before
anything has verified it. A packet with a copied signature is recorded like the
genuine one, whatever its payload and its receiver, and the genuine one is then
dropped as already handled.

Two runs of one node are compared: in the first it receives genuine packets
only, in the second also any forged ones. `forged_harmless_iff` says exactly
when the same genuine packets reach the handler.
-/

set_option autoImplicit false

namespace P2PFileSync

/-- A packet received, and the routing table at that time: what was handled
before may have changed it. -/
structure Received where
  signedMsg : SignedProtoMessage
  sin : SockaddrIn
  routingTable : RoutingTable Bytes

def Received.packet (received : Received) : SignedProtoMessage × SockaddrIn :=
  (received.signedMsg, received.sin)

/-- One packet after another: the server afterwards and the tasks submitted. -/
def receiveAll (server : ServerContext) : List Received → Option (ServerContext × List Task)
  | [] => some (server, [])
  | received :: rest =>
      match readPacket { server with routingTable := received.routingTable } received.signedMsg
          received.sin with
      | none => none
      | some (server, tasks) =>
          (receiveAll server rest).map fun (server, more) => (server, tasks ++ more)

section Valid

variable (valid : Bytes → Bytes → Bool)

/-- The signature is valid for the payload. -/
def SignedProtoMessage.HasValidSignature (msg : SignedProtoMessage) : Prop :=
  valid msg.signedPayload msg.signature = true

instance (msg : SignedProtoMessage) : Decidable (msg.HasValidSignature valid) :=
  inferInstanceAs (Decidable (_ = true))

/-- The packets with a valid signature that some tasks pass to the handler. -/
def validHandled (tasks : List Task) : List (SignedProtoMessage × SockaddrIn) :=
  tasks.filterMap fun
    | .handle signedMsg sin =>
        if signedMsg.HasValidSignature valid then some (signedMsg, sin) else none
    | .sendPacketTcp .. => none

/-- The packets with a valid signature that a run submits to the handler. -/
def submittedValid (server : ServerContext) (received : List Received) :
    Option (List (SignedProtoMessage × SockaddrIn)) :=
  (receiveAll server received).map fun outcome => validHandled valid outcome.2

/-- No unexpired packet received earlier carries the signature of the packet. -/
def FirstOfItsSignature (earlier : List SignedProtoMessage) (msg : SignedProtoMessage) : Prop :=
  ∀ other ∈ earlier, other.ttl ≠ 0 → other.signature ≠ msg.signature

instance (earlier : List SignedProtoMessage) (msg : SignedProtoMessage) :
    Decidable (FirstOfItsSignature earlier msg) :=
  inferInstanceAs (Decidable (∀ other ∈ earlier, _))

/-- What a run submits, said without the cache: the valid packets for the node
that are the first ones with their signature. -/
def firstValid (deviceId : Bytes) (earlier : List SignedProtoMessage) :
    List Received → List (SignedProtoMessage × SockaddrIn)
  | [] => []
  | received :: rest =>
      if (received.signedMsg.ttl ≠ 0 ∧ FirstOfItsSignature earlier received.signedMsg) ∧
          deviceId = received.signedMsg.receiver ∧
          received.signedMsg.HasValidSignature valid then
        received.packet :: firstValid deviceId (received.signedMsg :: earlier) rest
      else firstValid deviceId (received.signedMsg :: earlier) rest

end Valid

variable {valid : Bytes → Bytes → Bool} {server : ServerContext}

/-! ## What a run submits -/

variable (valid) in
/-- One packet submits itself or nothing. -/
theorem validHandled_readPacket {signedMsg : SignedProtoMessage} {sin : SockaddrIn}
    {after : ServerContext} {tasks : List Task}
    (read : readPacket server signedMsg sin = some (after, tasks)) :
    validHandled valid tasks =
      if Passes server signedMsg ∧ server.deviceId = signedMsg.receiver ∧
          signedMsg.HasValidSignature valid then [(signedMsg, sin)] else [] := by
  rcases readPacket_cases read with ⟨dropped, _, rfl⟩ | ⟨passes, dispatched, _⟩
  · rw [if_neg fun condition => dropped condition.1]
    rfl
  · cases dispatched with
    | handle here =>
        by_cases genuine : signedMsg.HasValidSignature valid
        · rw [if_pos ⟨passes, here, genuine⟩]
          simp only [validHandled, List.filterMap_cons, if_pos genuine, List.filterMap_nil]
        · rw [if_neg fun condition => genuine condition.2.2]
          simp only [validHandled, List.filterMap_cons, if_neg genuine, List.filterMap_nil]
    | unicast _ elsewhere =>
        rw [if_neg fun condition => elsewhere condition.2.1]
        rfl
    | broadcast elsewhere =>
        rw [if_neg fun condition => elsewhere condition.2.1]
        exact List.filterMap_eq_nil_iff.mpr
          (List.forall_mem_map.mpr fun _ _ => rfl)

variable (server) in
/-- While placeholders are left, a packet is read and its signature kept. -/
theorem readPacket_recalls {size count : ℕ} {seen : Bytes → Prop}
    (recalls : server.packetCache.Recalls size count seen) (room : count < size)
    (signedMsg : SignedProtoMessage) (sin : SockaddrIn) :
    ∃ after tasks, readPacket server signedMsg sin = some (after, tasks) ∧
      after.deviceId = server.deviceId ∧
      after.packetCache.Recalls size (count + 1) fun id =>
        seen id ∨ (signedMsg.ttl ≠ 0 ∧ id = signedMsg.signature) := by
  by_cases passes : Passes server signedMsg
  · obtain ⟨packetCache, inserted, kept⟩ := recalls.insert room passes.2
    obtain ⟨tasks, _, outcome⟩ := readPacket_of_passes sin passes inserted
    refine ⟨_, tasks, outcome, rfl, kept.mono (Nat.le_refl _) ?_⟩
    intro id _
    rw [and_iff_right passes.1]
  · refine ⟨server, [], readPacket_of_not_passes passes, rfl,
      recalls.mono (Nat.le_succ count) ?_⟩
    intro id real
    constructor
    · exact .inl
    · rintro (old | ⟨alive, rfl⟩)
      · exact old
      · by_contra missing
        exact passes ⟨alive, fun cached => missing ((recalls.mem_cacheMap _ real).mp cached)⟩

/-- **What a run submits.** While the cache has room for all the packets, a valid
packet for the node is submitted exactly when it is the first one with its
signature. An empty signature is never valid. -/
theorem submittedValid_eq_firstValid (emptyInvalid : ∀ payload, valid payload [] = false)
    {size : ℕ} {earlier : List SignedProtoMessage} {received : List Received}
    (recalls : server.packetCache.Recalls size earlier.length fun id =>
      ∃ other ∈ earlier, other.ttl ≠ 0 ∧ id = other.signature)
    (room : earlier.length + received.length ≤ size) :
    submittedValid valid server received =
      some (firstValid valid server.deviceId earlier received) := by
  induction received generalizing server earlier with
  | nil => rfl
  | cons first rest ih =>
      rw [List.length_cons] at room
      have fits : earlier.length < size := by omega
      obtain ⟨after, tasks, read, sameId, kept⟩ :=
        readPacket_recalls { server with routingTable := first.routingTable } recalls fits
          first.signedMsg first.sin
      have remembered : after.packetCache.Recalls size (first.signedMsg :: earlier).length fun id =>
          ∃ other ∈ first.signedMsg :: earlier, other.ttl ≠ 0 ∧ id = other.signature := by
        apply kept.mono (Nat.le_refl _)
        intro id _
        simp only [List.mem_cons, exists_eq_or_imp]
        exact or_comm
      have later := ih remembered (by rw [List.length_cons]; omega)
      obtain ⟨outcome, run, submitted⟩ := Option.map_eq_some_iff.mp later
      have passes_iff : first.signedMsg.HasValidSignature valid →
          (Passes { server with routingTable := first.routingTable } first.signedMsg ↔
            first.signedMsg.ttl ≠ 0 ∧ FirstOfItsSignature earlier first.signedMsg) := by
        intro genuine
        have real : first.signedMsg.signature ≠ default := by
          intro empty
          rw [SignedProtoMessage.HasValidSignature, empty] at genuine
          exact absurd ((emptyInvalid _).symm.trans genuine) Bool.false_ne_true
        refine and_congr_right fun _ => (not_congr (recalls.mem_cacheMap _ real)).trans ?_
        simp only [FirstOfItsSignature, not_exists, not_and, ne_eq, eq_comm]
      have here := validHandled_readPacket valid read
      have both : validHandled valid (tasks ++ outcome.2) =
          validHandled valid tasks ++ validHandled valid outcome.2 := List.filterMap_append
      simp only [submittedValid, receiveAll, read, run, Option.map_some, both, here, submitted,
        firstValid, sameId]
      by_cases genuine : first.signedMsg.HasValidSignature valid
      · simp only [genuine, passes_iff genuine, and_true]
        split <;> rfl
      · simp only [genuine, and_false, if_false, List.nil_append]

/-! ## Two runs -/

variable {deviceId : Bytes} {earlier : List SignedProtoMessage} {received genuine : List Received}

variable (valid received) in
/-- The packets with a valid signature among those received. -/
def validPackets : List (SignedProtoMessage × SockaddrIn) :=
  (received.filter fun packet => packet.signedMsg.HasValidSignature valid).map Received.packet

theorem validPackets_cons_of_valid {first : Received} {rest : List Received}
    (isValid : first.signedMsg.HasValidSignature valid) :
    validPackets valid (first :: rest) = first.packet :: validPackets valid rest := by
  simp only [validPackets, List.filter_cons, isValid, decide_true, if_true, List.map_cons]

theorem validPackets_cons_of_not_valid {first : Received} {rest : List Received}
    (forged : ¬ first.signedMsg.HasValidSignature valid) :
    validPackets valid (first :: rest) = validPackets valid rest := by
  simp only [validPackets, List.filter_cons, forged, decide_false, Bool.false_eq_true, if_false]

theorem firstValid_sublist (deviceId : Bytes) (earlier : List SignedProtoMessage)
    (received : List Received) :
    (firstValid valid deviceId earlier received).Sublist (validPackets valid received) := by
  induction received generalizing earlier with
  | nil => exact .refl _
  | cons first rest ih =>
      unfold firstValid
      split
      · rename_i condition
        rw [validPackets_cons_of_valid condition.2.2]
        exact (ih _).cons_cons _
      · exact (ih _).trans (((List.sublist_cons_self first rest).filter _).map _)

/-- Every valid packet is submitted exactly when each is the first one with its
signature. -/
theorem firstValid_eq_iff
    (deliverable : ∀ packet ∈ received, packet.signedMsg.HasValidSignature valid →
      packet.signedMsg.ttl ≠ 0 ∧ deviceId = packet.signedMsg.receiver) :
    firstValid valid deviceId earlier received = validPackets valid received ↔
      (∀ packet ∈ received, packet.signedMsg.HasValidSignature valid →
        FirstOfItsSignature earlier packet.signedMsg) ∧
      received.Pairwise fun before after => after.signedMsg.HasValidSignature valid →
        before.signedMsg.ttl ≠ 0 → before.signedMsg.signature ≠ after.signedMsg.signature := by
  induction received generalizing earlier with
  | nil => simp only [firstValid, validPackets, List.filter_nil, List.map_nil, List.not_mem_nil,
      false_imp_iff, implies_true, List.Pairwise.nil, and_self]
  | cons first rest ih =>
      have later : firstValid valid deviceId (first.signedMsg :: earlier) rest =
          validPackets valid rest ↔ _ :=
        ih fun packet member => deliverable packet (List.mem_cons_of_mem _ member)
      have split_first : (∀ packet ∈ rest, packet.signedMsg.HasValidSignature valid →
          FirstOfItsSignature (first.signedMsg :: earlier) packet.signedMsg) ↔
          (∀ packet ∈ rest, packet.signedMsg.HasValidSignature valid →
            first.signedMsg.ttl ≠ 0 → first.signedMsg.signature ≠ packet.signedMsg.signature) ∧
          ∀ packet ∈ rest, packet.signedMsg.HasValidSignature valid →
            FirstOfItsSignature earlier packet.signedMsg := by
        simp only [FirstOfItsSignature, List.forall_mem_cons, imp_and, forall_and]
      rw [split_first] at later
      rw [List.pairwise_cons, List.forall_mem_cons]
      by_cases genuine : first.signedMsg.HasValidSignature valid
      · obtain ⟨alive, here⟩ := deliverable first List.mem_cons_self genuine
        have listed : validPackets valid (first :: rest) = _ := validPackets_cons_of_valid genuine
        by_cases isFirst : FirstOfItsSignature earlier first.signedMsg
        · rw [firstValid, if_pos ⟨⟨alive, isFirst⟩, here, genuine⟩, listed, List.cons_inj_right,
            later]
          tauto
        · rw [firstValid, if_neg fun condition => isFirst condition.1.2, listed]
          constructor
          · intro same
            have sublist : (firstValid valid deviceId (first.signedMsg :: earlier) rest).Sublist
                (validPackets valid rest) := firstValid_sublist _ _ _
            have shorter := sublist.length_le
            rw [same, List.length_cons] at shorter
            exact absurd shorter (Nat.not_succ_le_self _)
          · intro condition
            exact absurd (condition.1.1 genuine) isFirst
      · rw [firstValid, if_neg fun condition => genuine condition.2.2,
          validPackets_cons_of_not_valid genuine, later]
        tauto

/-- The valid packets of the second run are those of the first, so they are
unexpired and addressed to the node. -/
theorem deliverable_of_same
    (genuineValid : ∀ packet ∈ genuine, packet.signedMsg.HasValidSignature valid ∧
      packet.signedMsg.receiver = deviceId ∧ packet.signedMsg.ttl ≠ 0)
    (same : validPackets valid received = genuine.map Received.packet) :
    ∀ packet ∈ received, packet.signedMsg.HasValidSignature valid →
      packet.signedMsg.ttl ≠ 0 ∧ deviceId = packet.signedMsg.receiver := by
  intro packet member isValid
  have listed : packet.packet ∈ validPackets valid received :=
    List.mem_map_of_mem (List.mem_filter.mpr ⟨member, decide_eq_true isValid⟩)
  rw [same] at listed
  obtain ⟨original, originalMember, equal⟩ := List.mem_map.mp listed
  have sameMsg : original.signedMsg = packet.signedMsg := congrArg Prod.fst equal
  obtain ⟨_, here, alive⟩ := genuineValid original originalMember
  rw [sameMsg] at here alive
  exact ⟨alive, here.symm⟩

/-- Nor do two of them share a signature. -/
theorem separate_of_same
    (distinct : (genuine.map fun packet => packet.signedMsg.signature).Nodup)
    (same : validPackets valid received = genuine.map Received.packet) :
    received.Pairwise fun before after =>
      before.signedMsg.HasValidSignature valid → after.signedMsg.HasValidSignature valid →
        before.signedMsg.signature ≠ after.signedMsg.signature := by
  have signatures := congrArg (List.map fun packet => packet.1.signature) same
  simp only [validPackets, List.map_map] at signatures
  have split : (fun packet : Received => packet.signedMsg.signature) =
      (fun packet => packet.1.signature) ∘ Received.packet := rfl
  rw [split, ← signatures] at distinct
  apply (List.pairwise_filter.mp (List.pairwise_map.mp distinct)).imp
  intro before after different beforeValid afterValid
  exact different (decide_eq_true beforeValid) (decide_eq_true afterValid)

/-- On an unused cache with room for all the packets, a run submits the valid
packets that are the first ones with their signature. -/
theorem submittedValid_fresh (emptyInvalid : ∀ payload, valid payload [] = false) {size : ℕ}
    (fresh : server.packetCache = .new size) (room : received.length ≤ size) :
    submittedValid valid server received =
      some (firstValid valid server.deviceId [] received) := by
  have recalls : server.packetCache.Recalls size ([] : List SignedProtoMessage).length fun id =>
      ∃ other ∈ ([] : List SignedProtoMessage), other.ttl ≠ 0 ∧ id = other.signature := by
    rw [fresh]
    apply (FIFOCache.recalls_new size).mono (Nat.le_refl _)
    intro id _
    simp only [List.not_mem_nil, false_and, exists_false]
  exact submittedValid_eq_firstValid emptyInvalid recalls (by rwa [List.length_nil, Nat.zero_add])

/-- **When forged packets are harmless.** A node whose cache has room for all the
packets receives the same genuine packets twice: valid, addressed to it,
unexpired and with distinct signatures; the second time with forged packets
among them. The same genuine packets are submitted exactly when no unexpired
forged packet came before a genuine packet with the same signature. -/
theorem forged_harmless_iff (emptyInvalid : ∀ payload, valid payload [] = false) {size : ℕ}
    (fresh : server.packetCache = .new size)
    (genuineValid : ∀ packet ∈ genuine, packet.signedMsg.HasValidSignature valid ∧
      packet.signedMsg.receiver = server.deviceId ∧ packet.signedMsg.ttl ≠ 0)
    (distinct : (genuine.map fun packet => packet.signedMsg.signature).Nodup)
    (same : validPackets valid received = genuine.map Received.packet)
    (room : received.length < size) :
    submittedValid valid server received = submittedValid valid server genuine ↔
      received.Pairwise fun before after => ¬ before.signedMsg.HasValidSignature valid →
        after.signedMsg.HasValidSignature valid → before.signedMsg.ttl ≠ 0 →
          before.signedMsg.signature ≠ after.signedMsg.signature := by
  have fewer : genuine.length ≤ received.length := by
    have count := congrArg List.length same
    rw [List.length_map] at count
    rw [← count, validPackets, List.length_map]
    exact List.length_filter_le _ _
  have allValid : validPackets valid genuine = genuine.map Received.packet := by
    rw [validPackets, List.filter_eq_self.mpr fun packet member =>
      decide_eq_true (genuineValid packet member).1]
  have firstRun : firstValid valid server.deviceId [] genuine = genuine.map Received.packet := by
    rw [← allValid]
    refine (firstValid_eq_iff ?_).mpr ⟨?_, ?_⟩
    · intro packet member valid
      obtain ⟨_, here, alive⟩ := genuineValid packet member
      exact ⟨alive, here.symm⟩
    · exact fun _ _ _ _ impossible => absurd impossible List.not_mem_nil
    · exact (List.pairwise_map.mp distinct).imp fun different _ _ => different
  rw [submittedValid_fresh emptyInvalid fresh (Nat.le_of_lt room),
    submittedValid_fresh emptyInvalid fresh (Nat.le_trans fewer (Nat.le_of_lt room)), firstRun,
    ← same, Option.some_inj, firstValid_eq_iff (deliverable_of_same genuineValid same)]
  constructor
  · rintro ⟨-, first⟩
    exact first.imp fun separates _ afterValid alive => separates afterValid alive
  · intro harmless
    refine ⟨fun _ _ _ _ impossible => absurd impossible List.not_mem_nil, ?_⟩
    refine (harmless.and (separate_of_same distinct same)).imp ?_
    intro before after both afterValid alive
    by_cases beforeValid : before.signedMsg.HasValidSignature valid
    · exact both.2 beforeValid afterValid
    · exact both.1 beforeValid afterValid alive

/-- A packet for node 2 that holder 7 signed, and one for node 3 that carries the
same signature over another payload. -/
def signedPacket : Received where
  signedMsg := { receiver := [2], ttl := 5, signature := [7, 1], signedPayload := [1] }
  sin := loopbackSin
  routingTable := ⟨∅⟩

def forgedPacket : Received where
  signedMsg := { receiver := [3], ttl := 1, signature := [7, 1], signedPayload := [4] }
  sin := loopbackSin
  routingTable := ⟨∅⟩

theorem keyed_emptyInvalid (payload : Bytes) : OpenSSL.keyed.verifies 7 payload [] = false := rfl

/-- The forged packet comes first, and the genuine one is dropped. -/
theorem forged_packet_suppresses :
    validPackets (OpenSSL.keyed.verifies 7) [forgedPacket, signedPacket] =
        [signedPacket].map Received.packet ∧
      submittedValid (OpenSSL.keyed.verifies 7) (.create [2] 3324 4) [signedPacket] =
        some [signedPacket.packet] ∧
      submittedValid (OpenSSL.keyed.verifies 7) (.create [2] 3324 4)
        [forgedPacket, signedPacket] = some [] := by
  decide

/-- The forged packet comes second and changes nothing. -/
theorem forged_harmless_iff_second :
    submittedValid (OpenSSL.keyed.verifies 7) (.create [2] 3324 4)
        [signedPacket, forgedPacket] =
      submittedValid (OpenSSL.keyed.verifies 7) (.create [2] 3324 4) [signedPacket] :=
  have fresh : (ServerContext.create [2] 3324 4).packetCache = .new 4 := rfl
  (forged_harmless_iff keyed_emptyInvalid fresh (by decide) (by decide) (by decide)
    (by decide)).mpr (by decide)

end P2PFileSync
