import P2PFileSync.Network.Relaying

/-!
# A packet on its route

Along a chain of nodes, each with a route over the next one, a packet is never
in two places at once. It travels as one frame or one waiting task, its ttl
smaller by one at every hop, until one of two things happens: it arrives at the
end of the chain and is submitted to the handler there, or it is read with ttl 1
before the end, is broadcast, and every frame of the broadcast has expired.

So it is handled exactly when its ttl is at least the number of nodes of the
chain (`chain_handled_iff`), whatever the other routes are and whatever other
packets are in flight.
-/

set_option autoImplicit false

namespace P2PFileSync

universe u

namespace Network

variable {ι : Type u} [DecidableEq ι] {net : Network ι} {hop : ℕ → ι} {last : ℕ}

/-! ## The chain -/

/-- The nodes `hop 0`, …, `hop last` are distinct, the last of them is the
receiver, and each of the others has a route to it over the next one. -/
structure Chain (net : Network ι) (hop : ℕ → ι) (last : ℕ) (receiver : Bytes)
    (s : NetState ι) : Prop where
  destination : (s.node (hop last)).deviceId = receiver
  distinct : ∀ i ≤ last, ∀ j ≤ last,
    (s.node (hop i)).deviceId = (s.node (hop j)).deviceId → i = j
  route : ∀ i < last, ∃ peer,
    (s.node (hop i)).routingTable.getNextPeer receiver = some peer ∧
      net.connect (hop i) peer = some (hop (i + 1))
  room : ∀ i ≤ last, 0 < (s.node (hop i)).packetCache.maxCacheSize

/-- No step changes the chain. -/
theorem Chain.fired {receiver : Bytes} {s t : NetState ι} {token : InFlight ι}
    {produced : List (InFlight ι)} (chain : Chain net hop last receiver s)
    (fired : Fired net s token t produced) : Chain net hop last receiver t where
  destination := (fired.node_frame _).1.trans chain.destination
  distinct i i_le j j_le same := by
    rw [(fired.node_frame _).1, (fired.node_frame _).1] at same
    exact chain.distinct i i_le j j_le same
  route i i_lt := by
    rw [(fired.node_frame _).2.2.1]
    exact chain.route i i_lt
  room i i_le := by
    rw [(fired.node_frame _).2.2.2]
    exact chain.room i i_le

omit [DecidableEq ι] in
/-- Only the end of the chain is the receiver. -/
theorem Chain.receiver_iff {receiver : Bytes} {s : NetState ι}
    (chain : Chain net hop last receiver s) {i : ℕ} (i_le : i ≤ last) :
    (s.node (hop i)).deviceId = receiver ↔ i = last := by
  constructor
  · intro here
    exact chain.distinct i i_le last (le_refl _) (here.trans chain.destination.symm)
  · rintro rfl
    exact chain.destination

/-! ## Where the packet is -/

/-- The nodes from position `i` on have not seen the signature. -/
def UnseenFrom (hop : ℕ → ι) (last : ℕ) (signature : Bytes) (s : NetState ι) (i : ℕ) : Prop :=
  ∀ j, i ≤ j → j ≤ last → signature ∉ (s.node (hop j)).packetCache.cacheMap

/-- What is left after the broadcast of a packet with ttl 1. -/
def Expiring : InFlight ι → Prop
  | .task _ _ copy _ => copy.ttl = 1
  | .frame _ _ copy => copy.ttl = 0

/-- The copies in flight of a packet that was delivered to the start of a chain,
in the order of its way: on a connection, waiting for one, broadcast too early,
or gone because it arrived. -/
inductive OnChain (net : Network ι) (hop : ℕ → ι) (last : ℕ) (msg : SignedProtoMessage)
    (s : NetState ι) : List (InFlight ι) → Prop where
  | travelling {i : ℕ} {sin : SockaddrIn} {copy : SignedProtoMessage} (i_le : i ≤ last)
      (same : msg.SamePacket copy) (alive : copy.ttl ≠ 0)
      (ttl : copy.ttl.toNat + i = msg.ttl.toNat)
      (unseen : UnseenFrom hop last msg.signature s i)
      (unsubmitted : submissions msg.signature s.log = []) :
      OnChain net hop last msg s [.frame (hop i) sin copy]
  | waiting {i : ℕ} {machinePort : UInt16} {copy : SignedProtoMessage} {peer : IPAddress}
      (i_lt : i < last) (same : msg.SamePacket copy) (alive : 1 < copy.ttl)
      (ttl : copy.ttl.toNat + i = msg.ttl.toNat)
      (accepted : net.connect (hop i) peer = some (hop (i + 1)))
      (unseen : UnseenFrom hop last msg.signature s (i + 1))
      (unsubmitted : submissions msg.signature s.log = []) :
      OnChain net hop last msg s [.task (hop i) machinePort copy peer]
  | expiring {tokens : List (InFlight ι)} (short : msg.ttl.toNat ≤ last)
      (expiring : ∀ token ∈ tokens, Expiring token)
      (unsubmitted : submissions msg.signature s.log = []) : OnChain net hop last msg s tokens
  | arrived {entry : Delivery ι} (enough : last < msg.ttl.toNat)
      (submitted : submissions msg.signature s.log = [entry]) (there : entry.dst = hop last)
      (same : msg.SamePacket entry.msg) : OnChain net hop last msg s []

variable {msg : SignedProtoMessage}

omit [DecidableEq ι] in
theorem OnChain.perm {s : NetState ι} {first second : List (InFlight ι)}
    (onChain : OnChain net hop last msg s first) (perm : second.Perm first) :
    OnChain net hop last msg s second := by
  cases onChain with
  | travelling i_le same alive ttl unseen unsubmitted =>
      rw [perm.eq_singleton]
      exact .travelling i_le same alive ttl unseen unsubmitted
  | waiting i_lt same alive ttl accepted unseen unsubmitted =>
      rw [perm.eq_singleton]
      exact .waiting i_lt same alive ttl accepted unseen unsubmitted
  | expiring short expiring unsubmitted =>
      exact .expiring short (fun token member => expiring token (perm.mem_iff.mp member))
        unsubmitted
  | arrived enough submitted there same =>
      rw [perm.eq_nil]
      exact .arrived enough submitted there same

/-! ## One step -/

/-- A step of another packet leaves the packet where it is. -/
theorem OnChain.other {s t : NetState ι} {token : InFlight ι} {produced tokens : List (InFlight ι)}
    (onChain : OnChain net hop last msg s tokens) (fired : Fired net s token t produced)
    (other : token.msg.signature ≠ msg.signature) : OnChain net hop last msg t tokens := by
  have log := fired.submissions_eq other
  have unseen : ∀ i, UnseenFrom hop last msg.signature s i →
      UnseenFrom hop last msg.signature t i := by
    intro i unseen j i_le j_le cached
    rcases fired.mem_cacheMap cached with old | ⟨_, _, rfl, same⟩
    · exact unseen j i_le j_le old
    · exact other same.symm
  cases onChain with
  | travelling i_le same alive ttl before unsubmitted =>
      exact .travelling i_le same alive ttl (unseen _ before) (log.trans unsubmitted)
  | waiting i_lt same alive ttl accepted before unsubmitted =>
      exact .waiting i_lt same alive ttl accepted (unseen _ before) (log.trans unsubmitted)
  | expiring short expiring unsubmitted =>
      exact .expiring short expiring (log.trans unsubmitted)
  | arrived enough submitted there same =>
      exact .arrived enough (log.trans submitted) there same

/-- A frame of the packet is read by a node of the chain. -/
theorem OnChain.read {s : NetState ι} (chain : Chain net hop last msg.receiver s) {i : ℕ}
    {sin : SockaddrIn} {copy : SignedProtoMessage} (i_le : i ≤ last)
    (same : msg.SamePacket copy) (ttl : copy.ttl.toNat + i = msg.ttl.toNat)
    (unseen : UnseenFrom hop last msg.signature s i)
    (unsubmitted : submissions msg.signature s.log = []) {tasks : List Task}
    {packetCache : FIFOCache Bytes} (alive : copy.ttl ≠ 0)
    (dispatched : Dispatched (s.node (hop i)) copy sin tasks)
    (fired : Fired net s (.frame (hop i) sin copy)
      (s.deliver { s.node (hop i) with packetCache := packetCache } ⟨hop i, copy, true, tasks⟩)
      (tasks.filterMap (InFlight.ofTask (hop i)))) :
    OnChain net hop last msg
      (s.deliver { s.node (hop i) with packetCache := packetCache } ⟨hop i, copy, true, tasks⟩)
      (tasks.filterMap (InFlight.ofTask (hop i))) := by
  have positive : 1 ≤ copy.ttl.toNat :=
    Nat.one_le_iff_ne_zero.mpr fun zero => alive (UInt32.toNat_inj.mp zero)
  have log : submissions msg.signature (s.log ++ [⟨hop i, copy, true, tasks⟩]) =
      if (s.node (hop i)).deviceId = copy.receiver then [⟨hop i, copy, true, tasks⟩] else [] := by
    rw [submissions_append, unsubmitted, List.nil_append]
    simp only [handled_iff_of_dispatched dispatched, same.signature, and_true]
  have later : UnseenFrom hop last msg.signature
      (s.deliver { s.node (hop i) with packetCache := packetCache } ⟨hop i, copy, true, tasks⟩)
      (i + 1) := by
    intro j i_lt j_le cached
    rcases fired.mem_cacheMap cached with old | ⟨_, _, here, _⟩
    · exact unseen j (Nat.le_of_succ_le i_lt) j_le old
    · have position := chain.distinct i i_le j j_le (by rw [(InFlight.frame.inj here).1])
      omega
  have receiver := chain.receiver_iff i_le
  rw [← same.receiver] at receiver
  cases dispatched with
  | handle here =>
      have ended := receiver.mp here
      subst ended
      rw [if_pos here] at log
      exact .arrived (by omega) log rfl same
  | unicast peer elsewhere more route =>
      have before : i < last := lt_of_le_of_ne i_le fun ended => elsewhere (receiver.mpr ended)
      obtain ⟨next, known, accepted⟩ := chain.route i before
      rw [same.receiver, known] at route
      cases route
      rw [if_neg elsewhere] at log
      exact .waiting before same more ttl accepted later log
  | broadcast elsewhere unrouted =>
      -- there is a route, so the broadcast can only be due to a ttl of 1
      have before : i < last := lt_of_le_of_ne i_le fun ended => elsewhere (receiver.mpr ended)
      obtain ⟨next, known, _⟩ := chain.route i before
      rw [← same.receiver] at known
      have one : copy.ttl.toNat = 1 := by
        by_contra several
        have more : 1 < copy.ttl.toNat := by omega
        rw [unrouted (UInt32.lt_iff_toNat_lt.mpr more)] at known
        cases known
      rw [if_neg elsewhere] at log
      refine .expiring (by omega) ?_ log
      intro token member
      obtain ⟨task, submitted, waits⟩ := List.mem_filterMap.mp member
      obtain ⟨entry, _, rfl⟩ := List.mem_map.mp submitted
      cases waits
      exact UInt32.toNat_inj.mp one

/-- A step of the packet moves it on. -/
theorem OnChain.own {s t : NetState ι} {token : InFlight ι} {rest produced : List (InFlight ι)}
    (chain : Chain net hop last msg.receiver s)
    (onChain : OnChain net hop last msg s (token :: rest))
    (fired : Fired net s token t produced) : OnChain net hop last msg t (rest ++ produced) := by
  cases onChain with
  | @travelling i sin copy i_le same alive ttl unseen unsubmitted =>
      cases id fired with
      | dropped drop =>
          have new : copy.signature ∉ (s.node (hop i)).packetCache.cacheMap := by
            rw [same.signature]
            exact unseen i (le_refl _) i_le
          exact absurd ⟨alive, new⟩ drop
      | passed _ _ dispatched =>
          exact OnChain.read chain i_le same ttl unseen unsubmitted alive dispatched fired
  | @waiting i machinePort copy peer i_lt same alive ttl accepted unseen unsubmitted =>
      cases fired with
      | sent accepts =>
          obtain rfl := Option.some.inj (accepts.symm.trans accepted)
          have unexpired := SignedProtoMessage.alive_of_one_lt alive
          have decrement := SignedProtoMessage.forwarded_ttl machinePort unexpired
          exact .travelling i_lt (same.forwarded machinePort)
            (SignedProtoMessage.forwarded_alive machinePort alive) (by omega) unseen unsubmitted
      | refused refusal =>
          rw [accepted] at refusal
          cases refusal
  | expiring short expiring unsubmitted =>
      have rest_expiring : ∀ token ∈ rest, Expiring token := fun token member =>
        expiring token (List.mem_cons_of_mem _ member)
      have token_expiring := expiring token (List.mem_cons_self ..)
      cases fired with
      | sent _ =>
          refine .expiring short (List.forall_mem_append.mpr ⟨rest_expiring, ?_⟩) unsubmitted
          intro new member
          rw [List.mem_singleton.mp member]
          change _ - 1 = 0
          rw [show _ = (1 : UInt32) from token_expiring, UInt32.sub_self]
      | refused _ =>
          rw [List.append_nil]
          exact .expiring short rest_expiring unsubmitted
      | dropped _ =>
          rw [List.append_nil]
          refine .expiring short rest_expiring ?_
          exact (submissions_append ..).trans (by
            rw [unsubmitted, if_neg (fun counts => Bool.false_ne_true counts.1), List.append_nil])
      | passed passes _ _ => exact absurd token_expiring passes.1

/-- Every step keeps the packet on its way. -/
theorem onChain_of_fires {c d : Config ι} {token : InFlight ι}
    (chain : Chain net hop last msg.receiver c.state)
    (onChain : OnChain net hop last msg c.state (copies msg.signature c.tokens))
    (fires : net.system.Fires c token d) :
    OnChain net hop last msg d.state (copies msg.signature d.tokens) := by
  obtain ⟨produced, fired, ⟨other, perm⟩ | ⟨_, rest, perm, tokens⟩⟩ :=
    copies_of_fires msg.signature fires
  · exact (onChain.perm perm).other fired other
  · rw [tokens]
    exact (onChain.perm perm.symm).own chain fired

/-! ## The end of the way -/

/-- While a copy is in flight, a step is possible. -/
theorem OnChain.exists_step {c : Config ι} (chain : Chain net hop last msg.receiver c.state)
    (onChain : OnChain net hop last msg c.state (copies msg.signature c.tokens))
    (inFlight : copies msg.signature c.tokens ≠ []) : ¬ net.system.Terminal c := by
  intro terminal
  obtain ⟨token, member⟩ := List.exists_mem_of_ne_nil _ inFlight
  have stuck : ∀ state produced, net.system.fire c.state token ≠ some (state, produced) := by
    intro state produced outcome
    obtain ⟨d, fires, _⟩ := TokenSystem.exists_fires (mem_copies.mp member).1 outcome
    exact terminal d ⟨token, fires⟩
  have defined : (net.system.fire c.state token).isSome := by
    apply fire_isSome
    intro dst sin copy read passes
    subst read
    revert member
    generalize copies msg.signature c.tokens = tokens at onChain
    intro member
    cases onChain with
    | travelling i_le =>
        cases List.mem_singleton.mp member
        exact FIFOCache.not_frontUndefined_of_pos (chain.room _ i_le)
    | waiting => cases List.mem_singleton.mp member
    | expiring _ expiring _ => exact absurd (expiring _ member) passes.1
    | arrived => cases member
  obtain ⟨⟨state, produced⟩, outcome⟩ := Option.isSome_iff_exists.mp defined
  exact stuck state produced outcome

omit [DecidableEq ι] in
/-- What was submitted so far, and what it will be in the end. -/
theorem OnChain.submissions {s : NetState ι} {tokens : List (InFlight ι)}
    (onChain : OnChain net hop last msg s tokens) :
    (submissions msg.signature s.log).length ≤ 1 ∧
      (∀ entry ∈ submissions msg.signature s.log,
        entry.dst = hop last ∧ msg.SamePacket entry.msg) ∧
      (tokens = [] → (submissions msg.signature s.log ≠ [] ↔ last + 1 ≤ msg.ttl.toNat)) := by
  have nothing : Network.submissions msg.signature s.log = [] →
      (Network.submissions msg.signature s.log).length ≤ 1 ∧
        ∀ entry ∈ Network.submissions msg.signature s.log,
          entry.dst = hop last ∧ msg.SamePacket entry.msg := by
    intro unsubmitted
    rw [unsubmitted]
    exact ⟨Nat.zero_le _, fun _ member => absurd member List.not_mem_nil⟩
  cases onChain with
  | travelling _ _ _ _ _ unsubmitted | waiting _ _ _ _ _ _ unsubmitted =>
      exact ⟨(nothing unsubmitted).1, (nothing unsubmitted).2, fun empty => by cases empty⟩
  | expiring short _ unsubmitted =>
      refine ⟨(nothing unsubmitted).1, (nothing unsubmitted).2, ?_⟩
      intro _
      exact iff_of_false (fun submitted => submitted unsubmitted) (by omega)
  | arrived enough submitted there same =>
      rw [submitted]
      refine ⟨le_refl _, ?_, fun _ => iff_of_true (List.cons_ne_nil _ _) enough⟩
      intro entry member
      rw [List.mem_singleton.mp member]
      exact ⟨there, same⟩

/-- **A packet on its route is handled exactly when its ttl reaches.** The chain
has `last + 1` nodes. In every run the packet is submitted at most once and to
the handler of no other node; once no copy is in flight, it was submitted if and
only if its ttl is at least the number of nodes; and every run goes on until no
copy is in flight. -/
theorem chain_handled_iff {c : Config ι} {sin : SockaddrIn} {others : List (InFlight ι)}
    (chain : Chain net hop last msg.receiver c.state) (alive : msg.ttl ≠ 0)
    (unseen : ∀ i ≤ last, msg.signature ∉ (c.state.node (hop i)).packetCache.cacheMap)
    (start : c.tokens = .frame (hop 0) sin msg :: others) (unused : c.state.log = [])
    (different : ∀ token ∈ others, token.msg.signature ≠ msg.signature)
    (unexpired : ∀ token ∈ others, Unexpired token) {d : Config ι} (run : net.system.Run c d) :
    (submissions msg.signature d.state.log).length ≤ 1 ∧
      (∀ entry ∈ submissions msg.signature d.state.log,
        entry.dst = hop last ∧ msg.SamePacket entry.msg) ∧
      (copies msg.signature d.tokens = [] →
        (submissions msg.signature d.state.log ≠ [] ↔ last + 1 ≤ msg.ttl.toNat)) ∧
      ∃ e, net.system.Run d e ∧ copies msg.signature e.tokens = [] := by
  have first : OnChain net hop last msg c.state (copies msg.signature c.tokens) := by
    have first : (InFlight.frame (hop 0) sin msg).msg.signature = msg.signature := rfl
    rw [start, copies_cons_of_eq first, copies_eq_nil different]
    exact .travelling (Nat.zero_le _) (.refl msg) alive rfl (fun j _ j_le => unseen j j_le)
      (by rw [unused]; rfl)
  have way : ∀ {d}, net.system.Run c d → Chain net hop last msg.receiver d.state ∧
      OnChain net hop last msg d.state (copies msg.signature d.tokens) := by
    intro d run
    refine run.preserves (fun d => Chain net hop last msg.receiver d.state ∧
      OnChain net hop last msg d.state (copies msg.signature d.tokens)) ?_ ⟨chain, first⟩
    rintro c d ⟨chain, onChain⟩ ⟨token, fires⟩
    obtain ⟨_, _, _, _, fired⟩ := fired_of_fires fires
    exact ⟨chain.fired fired, onChain_of_fires chain onChain fires⟩
  obtain ⟨once, only, ended⟩ := (way run).2.submissions
  refine ⟨once, only, ended, ?_⟩
  have accessible : Acc (fun e d => net.system.Step d e) d := by
    refine acc_of_unexpired (run.preserves _ (fun _ _ => unexpired_of_step) ?_)
    rw [start]
    exact List.forall_mem_cons.mpr ⟨trivial, unexpired⟩
  obtain ⟨e, rest, terminal⟩ := TokenSystem.exists_terminal accessible
  refine ⟨e, rest, ?_⟩
  by_contra inFlight
  obtain ⟨chain, onChain⟩ := way (run.trans rest)
  exact onChain.exists_step chain inFlight terminal

/-- Nodes 1 and 2 of the circle. -/
theorem circle_chain :
    Chain (localhost 10) (fun i => Fin.ofNat 10 (i + 1)) 1 (packet [9]).receiver circle where
  destination := rfl
  distinct := by decide
  route i i_lt := by
    obtain rfl := Nat.lt_one_iff.mp i_lt
    exact ⟨_, rfl, rfl⟩
  room := by decide

/-- A packet with ttl 5 goes from node 1 to node 2, its receiver. -/
theorem chain_handled_iff_circle :
    ∃ d, (localhost 10).system.exec [0, 0, 0] ⟨circle, [.frame 1 loopbackSin (packet [9])]⟩ =
        some d ∧
      (submissions [9] d.state.log).length ≤ 1 ∧
        (∀ entry ∈ submissions [9] d.state.log,
          entry.dst = 2 ∧ (packet [9]).SamePacket entry.msg) ∧
        (copies [9] d.tokens = [] →
          (submissions [9] d.state.log ≠ [] ↔ 1 + 1 ≤ (packet [9]).ttl.toNat)) ∧
        ∃ e, (localhost 10).system.Run d e ∧ copies [9] e.tokens = [] :=
  have run : (localhost 10).system.Run ⟨circle, [.frame 1 loopbackSin (packet [9])]⟩ _ :=
    TokenSystem.run_of_exec (show (localhost 10).system.exec [0, 0, 0] _ = some _ from rfl)
  ⟨_, rfl, chain_handled_iff circle_chain (by decide) (by decide) rfl rfl
    (fun _ member => absurd member List.not_mem_nil)
    (fun _ member => absurd member List.not_mem_nil) run⟩

end Network

end P2PFileSync
