import P2PFileSync.Foundations.TokenSystem
import P2PFileSync.Packet.WireCodec
import P2PFileSync.ServerContext

/-!
# Sending from several threads

`P2PServerContext::send_pkg` signs with a digest context that belongs to the
server. The thread that starts the server calls it, and so do the workers that
answer hello messages, without a lock. A call makes four calls to OpenSSL:
initialise the context, feed it the packet, ask for the length of the signature,
ask for the signature. Here each of the four is one step, and the steps of
different calls of `send_pkg` come in any order. A digest context is not made for
concurrent use: calls that overlap inside OpenSSL are not covered.

The signature of a packet is over what the context was fed since anyone last
initialised it. So it is valid for the packet exactly when that is the packet
(`sent_verifies_iff`). Where no two calls overlap, the packets are those of
`sendPkg`, one for each call (`serial_refines`).
-/

set_option autoImplicit false

namespace P2PFileSync

namespace SendThreads

open TokenSystem

/-! ## The calls and their steps -/

/-- The digest context, once created: what it was fed since it was initialised,
`none` before. -/
abbrev EvpSignCtx := Option Bytes

/-- The call to OpenSSL that a call of `send_pkg` makes next. -/
inductive Position where
  | digestSignInit
  | digestSignUpdate
  | digestSignLength
  | digestSignFinal
  deriving DecidableEq, Repr

/-- A call of `send_pkg` that has not returned. -/
structure Call where
  data : ProtoMessage
  peer : IPAddress
  position : Position

/-- A finished step. -/
inductive Event where
  | init
  | update (rawPacket : Bytes)
  | length
  | final (data : ProtoMessage) (peer : IPAddress)

/-- The digest context and the tasks submitted, with the steps made so far, the
last one first. The steps are a history: no call reads them. -/
structure Signer where
  evpMdCtx : EvpSignCtx
  submitted : List Task
  log : List Event

/-- The server before the first packet. -/
def Signer.create : Signer := ⟨none, [], []⟩

section

variable {PrivateKey PublicKey : Type} (pb : Protobuf) (ssl : OpenSSL PrivateKey PublicKey)
  (clientPrivKey : PrivateKey) (port : UInt16)

/-- The task submitted for a message when the context was fed the given bytes.
A failure of OpenSSL leaves none. -/
def taskFor (data : ProtoMessage) (peer : IPAddress) (fed : Bytes) : List Task :=
  match ssl.digestSign clientPrivKey fed with
  | .error _ => []
  | .ok digest => [.sendPacketTcp port (signedMessage (pb.serializeMessage data) digest) peer]

/-- One step of a call. Initialising and feeding end the program when they fail,
so that a run goes on only where they succeed. A context used before it was
initialised is undefined behaviour. -/
def step (s : Signer) (call : Call) : Option (Signer × List Call) :=
  match call.position with
  | .digestSignInit =>
      some ({ s with evpMdCtx := some [], log := .init :: s.log },
        [{ call with position := .digestSignUpdate }])
  | .digestSignUpdate =>
      s.evpMdCtx.map fun fed =>
        ({ s with
            evpMdCtx := some (fed ++ pb.serializeMessage call.data)
            log := .update (pb.serializeMessage call.data) :: s.log },
          [{ call with position := .digestSignLength }])
  | .digestSignLength =>
      s.evpMdCtx.map fun _ =>
        ({ s with log := .length :: s.log }, [{ call with position := .digestSignFinal }])
  | .digestSignFinal =>
      s.evpMdCtx.map fun fed =>
        ({ s with
            submitted := s.submitted ++ taskFor pb ssl clientPrivKey port call.data call.peer fed
            log := .final call.data call.peer :: s.log }, [])

/-- The calls against the server. -/
def system : TokenSystem Signer Call where
  fire := step pb ssl clientPrivKey port

/-- A thread calls `send_pkg`. -/
def Calls (c d : Config Signer Call) : Prop :=
  ∃ data peer, d = ⟨c.state, c.tokens ++ [⟨data, peer, .digestSignInit⟩]⟩

/-- A thread calls `send_pkg` while no other call is running. -/
def CallsAlone (c d : Config Signer Call) : Prop := c.tokens = [] ∧ Calls c d

/-- A run in which the threads call `send_pkg` as the relation has it. -/
def Sends (calls : Config Signer Call → Config Signer Call → Prop) (d : Config Signer Call) :
    Prop :=
  (system pb ssl clientPrivKey port).OpenRun (fun _ _ => True) calls ⟨.create, []⟩ d

/-! ## What the context holds -/

/-- What a context was fed since it was initialised, read off the steps. -/
def accumulated : List Event → Option Bytes
  | [] => none
  | .init :: _ => some []
  | .update rawPacket :: earlier => (accumulated earlier).map (· ++ rawPacket)
  | .length :: earlier => accumulated earlier
  | .final _ _ :: earlier => accumulated earlier

/-- The tasks submitted, read off the steps. -/
def tasks : List Event → List Task
  | [] => []
  | .init :: earlier => tasks earlier
  | .update _ :: earlier => tasks earlier
  | .length :: earlier => tasks earlier
  | .final data peer :: earlier =>
      tasks earlier ++
        (accumulated earlier).elim [] (taskFor pb ssl clientPrivKey port data peer)

/-- The context and the tasks are those of the steps, and a call past its first
step finds the context initialised. -/
structure Consistent (c : Config Signer Call) : Prop where
  context : c.state.evpMdCtx = accumulated c.state.log
  submitted : c.state.submitted = tasks pb ssl clientPrivKey port c.state.log
  initialised : ∀ call ∈ c.tokens, call.position ≠ .digestSignInit →
    (accumulated c.state.log).isSome

variable {pb ssl clientPrivKey port}

/-- What one step does: it writes one event, and the context and the tasks follow
the events. -/
theorem step_cases {s t : Signer} {call : Call} {produced : List Call}
    (fired : step pb ssl clientPrivKey port s call = some (t, produced))
    (context : s.evpMdCtx = accumulated s.log)
    (submitted : s.submitted = tasks pb ssl clientPrivKey port s.log) :
    t.evpMdCtx = accumulated t.log ∧ t.submitted = tasks pb ssl clientPrivKey port t.log ∧
      (accumulated t.log).isSome ∧
      ((call.position = .digestSignInit ∧ t.log = .init :: s.log ∧
          produced = [{ call with position := .digestSignUpdate }]) ∨
        (call.position = .digestSignUpdate ∧
          t.log = .update (pb.serializeMessage call.data) :: s.log ∧
          produced = [{ call with position := .digestSignLength }]) ∨
        (call.position = .digestSignLength ∧ t.log = .length :: s.log ∧
          produced = [{ call with position := .digestSignFinal }]) ∨
        (call.position = .digestSignFinal ∧ t.log = .final call.data call.peer :: s.log ∧
          produced = [])) := by
  unfold step at fired
  cases at_position : call.position with
  | digestSignInit =>
      simp only [at_position] at fired
      cases fired
      exact ⟨rfl, submitted, rfl, .inl ⟨rfl, rfl, rfl⟩⟩
  | digestSignUpdate =>
      simp only [at_position] at fired
      obtain ⟨fed, found, outcome⟩ := Option.map_eq_some_iff.mp fired
      rw [context] at found
      cases outcome
      refine ⟨?_, submitted, ?_, .inr (.inl ⟨rfl, rfl, rfl⟩)⟩ <;>
        simp only [accumulated, found, Option.map_some, Option.isSome_some]
  | digestSignLength =>
      simp only [at_position] at fired
      obtain ⟨fed, found, outcome⟩ := Option.map_eq_some_iff.mp fired
      rw [context] at found
      cases outcome
      refine ⟨context, submitted, ?_, .inr (.inr (.inl ⟨rfl, rfl, rfl⟩))⟩
      simp only [accumulated, found, Option.isSome_some]
  | digestSignFinal =>
      simp only [at_position] at fired
      obtain ⟨fed, found, outcome⟩ := Option.map_eq_some_iff.mp fired
      rw [context] at found
      cases outcome
      refine ⟨context, ?_, ?_, .inr (.inr (.inr ⟨rfl, rfl, rfl⟩))⟩
      · simp only [tasks, submitted, found, Option.elim_some]
      · simp only [accumulated, found, Option.isSome_some]

/-- A step keeps the context initialised for the calls that need it. -/
theorem Consistent.fires {c d : Config Signer Call} {call : Call}
    (consistent : Consistent pb ssl clientPrivKey port c)
    (fires : (system pb ssl clientPrivKey port).Fires c call d) :
    Consistent pb ssl clientPrivKey port d := by
  obtain ⟨produced, outcome, -⟩ := fires.mem_tokens
  obtain ⟨context, submitted, initialised, -⟩ :=
    step_cases outcome consistent.context consistent.submitted
  exact ⟨context, submitted, fun _ _ _ => initialised⟩

theorem Consistent.calls {c d : Config Signer Call}
    (consistent : Consistent pb ssl clientPrivKey port c) (calls : Calls c d) :
    Consistent pb ssl clientPrivKey port d := by
  obtain ⟨data, peer, rfl⟩ := calls
  refine ⟨consistent.context, consistent.submitted, ?_⟩
  intro call member later
  rcases List.mem_append.mp member with old | new
  · exact consistent.initialised call old later
  · rw [List.mem_singleton.mp new] at later
    exact absurd rfl later

theorem consistent_create : Consistent pb ssl clientPrivKey port ⟨.create, []⟩ :=
  ⟨rfl, rfl, fun _ member => absurd member List.not_mem_nil⟩

/-- Every run keeps the context and the tasks those of its steps. -/
theorem Sends.consistent {calls : Config Signer Call → Config Signer Call → Prop}
    {d : Config Signer Call} (sends : Sends pb ssl clientPrivKey port calls d)
    (only : ∀ c d, calls c d → Calls c d) : Consistent pb ssl clientPrivKey port d := by
  apply OpenRun.preserves sends (Consistent pb ssl clientPrivKey port)
  · intro c d call consistent _ fires
    exact consistent.fires fires
  · intro c d consistent acts
    exact consistent.calls (only c d acts)
  · exact consistent_create

/-- A call never finds the context before it is initialised: it can always go
on. -/
theorem Consistent.enabled {c : Config Signer Call}
    (consistent : Consistent pb ssl clientPrivKey port c) {call : Call}
    (member : call ∈ c.tokens) :
    (step pb ssl clientPrivKey port c.state call).isSome := by
  have ready := consistent.initialised call member
  rw [← consistent.context] at ready
  cases at_position : call.position with
  | digestSignInit => simp only [step, at_position, Option.isSome_some]
  | digestSignUpdate | digestSignLength | digestSignFinal =>
      simp only [step, at_position, Option.isSome_map]
      exact ready (by rw [at_position]; decide)

/-! ## What a packet is signed over -/

theorem mem_taskFor {data : ProtoMessage} {peer : IPAddress} {fed : Bytes} {task : Task}
    (member : task ∈ taskFor pb ssl clientPrivKey port data peer fed) :
    ∃ digest, ssl.digestSign clientPrivKey fed = .ok digest ∧
      task = .sendPacketTcp port (signedMessage (pb.serializeMessage data) digest) peer := by
  unfold taskFor at member
  split at member
  · cases member
  · rename_i digest signed
    exact ⟨digest, signed, List.mem_singleton.mp member⟩

/-- A submitted task stems from the last step of a call, and from what the context
held then. -/
theorem mem_tasks {log : List Event} {task : Task}
    (member : task ∈ tasks pb ssl clientPrivKey port log) :
    ∃ later data peer earlier fed, log = later ++ .final data peer :: earlier ∧
      accumulated earlier = some fed ∧ task ∈ taskFor pb ssl clientPrivKey port data peer fed := by
  induction log with
  | nil => cases member
  | cons event earlier ih =>
      have deeper : task ∈ tasks pb ssl clientPrivKey port earlier →
          ∃ later data peer before fed, event :: earlier = later ++ .final data peer :: before ∧
            accumulated before = some fed ∧
            task ∈ taskFor pb ssl clientPrivKey port data peer fed := by
        intro old
        obtain ⟨later, data, peer, before, fed, split, rest⟩ := ih old
        exact ⟨event :: later, data, peer, before, fed, by rw [split, List.cons_append], rest⟩
      cases event with
      | init | update _ | length => exact deeper member
      | final data peer =>
          rcases List.mem_append.mp member with old | new
          · exact deeper old
          · cases found : accumulated earlier with
            | none =>
                rw [found] at new
                cases new
            | some fed =>
                rw [found] at new
                exact ⟨[], data, peer, earlier, fed, rfl, found, new⟩

/-- **Which packets are signed right.** Whatever threads send and in whatever
order their steps come, no call uses the context before it is initialised, and
the signature of a packet is valid for its payload exactly when the payload is
what the context was fed between the last initialisation and the last step of the
call. -/
theorem sent_verifies_iff (ideal : ssl.Ideal) {d : Config Signer Call}
    (sends : Sends pb ssl clientPrivKey port Calls d) :
    (∀ call ∈ d.tokens, (step pb ssl clientPrivKey port d.state call).isSome) ∧
      ∀ msg peer, .sendPacketTcp port msg peer ∈ d.state.submitted →
        ∃ later data earlier fed, d.state.log = later ++ .final data peer :: earlier ∧
          accumulated earlier = some fed ∧ msg.signedPayload = pb.serializeMessage data ∧
          (ssl.verifies (ssl.publicKey clientPrivKey) msg.signedPayload msg.signature = true ↔
            fed = pb.serializeMessage data) := by
  have consistent := sends.consistent fun _ _ calls => calls
  refine ⟨fun call member => consistent.enabled member, ?_⟩
  intro msg peer sent
  rw [consistent.submitted] at sent
  obtain ⟨later, data, other, earlier, fed, split, found, member⟩ := mem_tasks sent
  obtain ⟨digest, signed, same⟩ := mem_taskFor member
  cases same
  refine ⟨later, data, earlier, fed, split, found, rfl, ?_⟩
  exact (ideal clientPrivKey fed digest signed _).trans eq_comm

/-- Two calls overlap: the second one initialises the context after the first one
fed it. The first packet leaves with a signature over nothing. -/
theorem overlap_breaks_signature :
    ∃ d, Sends WireCodec.protobuf .keyed 7 3324 Calls d ∧
      d.state.submitted = [.sendPacketTcp 3324
        (signedMessage (WireCodec.protobuf.serializeMessage ping) [7]) loopback] ∧
      ∃ later data earlier fed, d.state.log = later ++ .final data loopback :: earlier ∧
        accumulated earlier = some fed ∧
        (OpenSSL.keyed.verifies 7 (WireCodec.protobuf.serializeMessage ping) [7] = true ↔
          fed = WireCodec.protobuf.serializeMessage data) := by
  let first : Config Signer Call := ⟨.create, [⟨ping, loopback, .digestSignInit⟩]⟩
  let both : Config Signer Call := ⟨.create, first.tokens ++ [⟨{}, loopback, .digestSignInit⟩]⟩
  have executed : (system WireCodec.protobuf .keyed 7 3324).exec [0, 1, 0, 0, 1] both =
      some _ := rfl
  have sends : Sends WireCodec.protobuf .keyed 7 3324 Calls _ :=
    .head (.act ⟨ping, loopback, rfl⟩) (.head (.act ⟨{}, loopback, rfl⟩)
      ((run_of_exec executed).openRun fun _ _ => trivial))
  obtain ⟨-, signed⟩ := sent_verifies_iff OpenSSL.keyed_ideal sends
  obtain ⟨later, data, earlier, fed, split, found, -, valid⟩ :=
    signed (signedMessage (WireCodec.protobuf.serializeMessage ping) [7]) loopback
      (List.mem_singleton.mpr rfl)
  exact ⟨_, sends, rfl, later, data, earlier, fed, split, found, valid⟩

/-! ## Calls that do not overlap -/

/-- The calls that made their last step, in this order. -/
def finished : List Event → List (ProtoMessage × IPAddress)
  | [] => []
  | .init :: earlier => finished earlier
  | .update _ :: earlier => finished earlier
  | .length :: earlier => finished earlier
  | .final data peer :: earlier => finished earlier ++ [(data, peer)]

variable (pb ssl clientPrivKey port) in
/-- The tasks of `sendPkg` for calls made one after another. -/
def sentFor (calls : List (ProtoMessage × IPAddress)) : List Task :=
  calls.filterMap fun call => (sendPkg pb ssl clientPrivKey port call.1 call.2).toOption

/-- A context fed the packet and nothing else gives the task of `sendPkg`. -/
theorem taskFor_own (data : ProtoMessage) (peer : IPAddress) :
    taskFor pb ssl clientPrivKey port data peer (pb.serializeMessage data) =
      sentFor pb ssl clientPrivKey port [(data, peer)] := by
  simp only [taskFor, sentFor, List.filterMap_cons, List.filterMap_nil, sendPkg]
  cases ssl.digestSign clientPrivKey (pb.serializeMessage data) <;> rfl

/-- What the context holds for the only call. -/
def Holds (pb : Protobuf) (log : List Event) (call : Call) : Prop :=
  match call.position with
  | .digestSignInit => True
  | .digestSignUpdate => accumulated log = some []
  | .digestSignLength => accumulated log = some (pb.serializeMessage call.data)
  | .digestSignFinal => accumulated log = some (pb.serializeMessage call.data)

variable (pb ssl clientPrivKey port) in
/-- At most one call is running, the context holds what it has fed, and the tasks
so far are those of `sendPkg`. -/
structure Alone (c : Config Signer Call) : Prop where
  consistent : Consistent pb ssl clientPrivKey port c
  single : c.tokens = [] ∨ ∃ call, c.tokens = [call] ∧ Holds pb c.state.log call
  refines : tasks pb ssl clientPrivKey port c.state.log =
    sentFor pb ssl clientPrivKey port (finished c.state.log)

theorem Alone.fires {c d : Config Signer Call} {call : Call}
    (alone : Alone pb ssl clientPrivKey port c)
    (fires : (system pb ssl clientPrivKey port).Fires c call d) :
    Alone pb ssl clientPrivKey port d := by
  have holds : c.tokens = [call] ∧ Holds pb c.state.log call := by
    have member := fires.mem
    rcases alone.single with empty | ⟨only, single, holds⟩
    · rw [empty] at member
      cases member
    · rw [single] at member
      rw [List.mem_singleton.mp member]
      exact ⟨single, holds⟩
  obtain ⟨rest, produced, perm, outcome, tokens⟩ := fires.elim
  have noOther : rest = [] := by
    rw [holds.1] at perm
    exact List.length_eq_zero_iff.mp (Nat.succ.inj perm.length_eq).symm
  rw [noOther, List.nil_append] at tokens
  obtain ⟨-, -, -, moves⟩ :=
    step_cases outcome alone.consistent.context alone.consistent.submitted
  have held := holds.2
  unfold Holds at held
  refine ⟨alone.consistent.fires fires, ?_, ?_⟩
  · rcases moves with ⟨_, log, next⟩ | ⟨position, log, next⟩ | ⟨position, log, next⟩ |
      ⟨_, _, next⟩
    · exact .inr ⟨_, tokens.trans next, by rw [log]; rfl⟩
    · rw [position] at held
      refine .inr ⟨_, tokens.trans next, ?_⟩
      rw [log]
      simp only [Holds, accumulated, held, Option.map_some, List.nil_append]
    · rw [position] at held
      refine .inr ⟨_, tokens.trans next, ?_⟩
      rw [log]
      exact held
    · exact .inl (tokens.trans next)
  · rcases moves with ⟨_, log, _⟩ | ⟨_, log, _⟩ | ⟨_, log, _⟩ | ⟨position, log, _⟩
    · rw [log]
      exact alone.refines
    · rw [log]
      exact alone.refines
    · rw [log]
      exact alone.refines
    · rw [position] at held
      rw [log]
      simp only [tasks, finished, alone.refines, held, Option.elim_some, taskFor_own, sentFor,
        List.filterMap_append]

theorem Alone.calls {c d : Config Signer Call} (alone : Alone pb ssl clientPrivKey port c)
    (calls : CallsAlone c d) : Alone pb ssl clientPrivKey port d := by
  obtain ⟨empty, called⟩ := calls
  have consistent := alone.consistent.calls called
  obtain ⟨data, peer, rfl⟩ := called
  refine ⟨consistent, .inr ⟨⟨data, peer, .digestSignInit⟩, ?_, trivial⟩, alone.refines⟩
  rw [empty, List.nil_append]

/-- **Without overlap the calls are atomic.** While no thread calls `send_pkg`
before the call of another has returned, the tasks submitted are those of
`sendPkg` for the finished calls, in their order. -/
theorem serial_refines {d : Config Signer Call}
    (sends : Sends pb ssl clientPrivKey port CallsAlone d) :
    d.state.submitted = sentFor pb ssl clientPrivKey port (finished d.state.log) := by
  have alone : Alone pb ssl clientPrivKey port d := by
    apply OpenRun.preserves sends (Alone pb ssl clientPrivKey port)
    · intro c d call alone _ fires
      exact alone.fires fires
    · intro c d alone acts
      exact alone.calls acts
    · exact ⟨consistent_create, .inl rfl, rfl⟩
  rw [alone.consistent.submitted, alone.refines]

variable (pb ssl clientPrivKey port) in
/-- The server after a call that no other call overlaps. -/
def Signer.after (s : Signer) (data : ProtoMessage) (peer : IPAddress) : Signer where
  evpMdCtx := some (pb.serializeMessage data)
  submitted := s.submitted ++
    taskFor pb ssl clientPrivKey port data peer (pb.serializeMessage data)
  log := .final data peer :: .length :: .update (pb.serializeMessage data) :: .init :: s.log

/-- A call that no other call overlaps runs to its end. -/
theorem Sends.call_alone {s : Signer} (sends : Sends pb ssl clientPrivKey port CallsAlone ⟨s, []⟩)
    (data : ProtoMessage) (peer : IPAddress) :
    Sends pb ssl clientPrivKey port CallsAlone
      ⟨s.after pb ssl clientPrivKey port data peer, []⟩ := by
  have returned : (system pb ssl clientPrivKey port).exec [0, 0, 0, 0]
      ⟨s, [⟨data, peer, .digestSignInit⟩]⟩ =
        some ⟨s.after pb ssl clientPrivKey port data peer, []⟩ := rfl
  have called := sends.tail (.act ⟨rfl, data, peer, rfl⟩)
  exact called.trans ((run_of_exec returned).openRun fun _ _ => trivial)

/-- Two calls, the second one after the first one returned. -/
theorem serial_refines_two :
    ∃ d, Sends WireCodec.protobuf .keyed 7 3324 CallsAlone d ∧
      finished d.state.log = [(ping, loopback), ({}, loopback)] ∧
      d.state.submitted =
        sentFor WireCodec.protobuf .keyed 7 3324 (finished d.state.log) := by
  have start : Sends WireCodec.protobuf .keyed 7 3324 CallsAlone ⟨.create, []⟩ := .refl
  have two := (start.call_alone ping loopback).call_alone {} loopback
  exact ⟨_, two, rfl, serial_refines two⟩

end

end SendThreads

end P2PFileSync
