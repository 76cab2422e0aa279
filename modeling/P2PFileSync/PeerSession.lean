import Mathlib.Data.List.Forall2
import P2PFileSync.OpenSSL

/-!
# Peer sessions

A peer session holds the public key of a peer and one digest context, which the
first call of `verify` creates and every later call uses again.

The context is never reset, so a later call is judged on the data of all the
calls before it as well. `verifyAll_asFresh_iff` says exactly for which
sequences of calls each one still answers as it would on a new session.
-/

set_option autoImplicit false

namespace P2PFileSync

/-- The members of `PeerSession`; `none` is the null pointer. -/
structure PeerSession (PublicKey : Type) where
  publicKey : PublicKey
  evpMdCtx : Option (EvpMdCtx PublicKey) := none

/-- The arguments of one call of `verify`. -/
structure VerifyCall where
  data : Bytes
  sig : Bytes
  method : ProtoSignAlgorithm
  deriving DecidableEq, Repr

namespace PeerSession

/-! ## A new session -/

section NewSession

variable {X509 X509Store PublicKey : Type} (api : X509Api X509 X509Store PublicKey)

/-- `new_session`: a session for a certificate that parses and verifies; `none`
is the null pointer. -/
def newSession (x509Store : X509Store) (rawCert : Bytes) : Option (PeerSession PublicKey) :=
  match api.d2iX509 rawCert with
  | none => none
  | some cert =>
      if api.x509VerifyCert x509Store cert = true then
        some { publicKey := api.x509GetPubkey cert }
      else none

variable {api}

/-- A session is made for the verified certificates and for no others. -/
theorem isSome_newSession_iff {store : X509Store} {rawCert : Bytes} :
    (newSession api store rawCert).isSome = true ↔ api.Verifies store rawCert := by
  unfold newSession X509Api.Verifies
  cases parsed : api.d2iX509 rawCert with
  | none => simp only [Option.isSome_none, Bool.false_eq_true, reduceCtorEq, false_and,
      exists_false]
  | some cert =>
      simp only [Option.some.injEq, exists_eq_left']
      split
      · rename_i verified
        simp only [Option.isSome_some, verified]
      · rename_i refused
        simp only [Option.isSome_none, Bool.false_eq_true, refused]

end NewSession

/-! ## Verifying -/

variable {PrivateKey PublicKey : Type} (ssl : OpenSSL PrivateKey PublicKey)

/-- The last two calls of `verify`, on a context taken to be initialised. -/
def verifySignature (session : PeerSession PublicKey) (ctx : EvpMdCtx PublicKey)
    (data sig : Bytes) : Option (Bool × PeerSession PublicKey) :=
  match OpenSSL.digestVerifyUpdate ctx data with
  | none => none
  | some (false, ctx) => some (false, { session with evpMdCtx := some ctx })
  | some (true, ctx) =>
      match ssl.digestVerifyFinal ctx sig with
      | none => none
      | some valid => some (valid, { session with evpMdCtx := some ctx })

/-- `verify`: the answer and the session afterwards; `none` when a context is
used that was freed or never initialised. -/
def verify (session : PeerSession PublicKey) (data sig : Bytes) (method : ProtoSignAlgorithm) :
    Option (Bool × PeerSession PublicKey) :=
  match session.evpMdCtx with
  | none =>
      if method = .SHA_256 then
        match ssl.digestVerifyInit session.publicKey with
        | (false, ctx) => some (false, { session with evpMdCtx := some ctx })
        | (true, ctx) => verifySignature ssl session ctx data sig
      else
        -- the context is freed, but the pointer to it is kept
        some (false, { session with evpMdCtx := some .freed })
  | some ctx => verifySignature ssl session ctx data sig

/-- One call after another on the same session. -/
def verifyAll (session : PeerSession PublicKey) :
    List VerifyCall → Option (List Bool × PeerSession PublicKey)
  | [] => some ([], session)
  | call :: calls =>
      match session.verify ssl call.data call.sig call.method with
      | none => none
      | some (answer, session) =>
          (session.verifyAll calls).map fun (answers, session) => (answer :: answers, session)

/-- What the call answers on a freshly created session. -/
def verifyFresh (key : PublicKey) (call : VerifyCall) : Option Bool :=
  (verify ssl ⟨key, none⟩ call.data call.sig call.method).map Prod.fst

/-- What `verify` is for: the method is supported, and the signature is valid
for the data of this call alone. -/
def accepts (key : PublicKey) (call : VerifyCall) : Bool :=
  call.method = .SHA_256 && ssl.verifies key call.data call.sig

/-- Every call answers what it would answer on a fresh session, and answers
true exactly for a supported method and a valid signature of its own data. -/
def AnswersAsFresh (key : PublicKey) (calls : List VerifyCall) : Prop :=
  ∃ answers session, verifyAll ssl ⟨key, none⟩ calls = some (answers, session) ∧
    List.Forall₂ (fun call answer => verifyFresh ssl key call = some answer ∧
      (answer = true ↔
        call.method = .SHA_256 ∧ ssl.verifies key call.data call.sig = true)) calls answers

/-- The bytes a sequence of calls feeds to the context. -/
def fedData (calls : List VerifyCall) : Bytes := calls.flatMap VerifyCall.data

/-! ## One call -/

variable {ssl}

theorem verify_verifying (owner key : PublicKey) (seen data sig : Bytes)
    (method : ProtoSignAlgorithm) :
    verify ssl ⟨owner, some (.verifying key seen)⟩ data sig method =
      some (ssl.verifies key (seen ++ data) sig,
        ⟨owner, some (.verifying key (seen ++ data))⟩) := rfl

/-- A context that is not initialised cannot be used. -/
theorem verify_unusable {ctx : EvpMdCtx PublicKey} (unusable : ctx = .created ∨ ctx = .freed)
    (owner : PublicKey) (data sig : Bytes) (method : ProtoSignAlgorithm) :
    verify ssl ⟨owner, some ctx⟩ data sig method = none := by
  rcases unusable with rfl | rfl
  · rfl
  · rfl

/-- The first call of a session whose key and method can be used. -/
theorem verify_new {key : PublicKey} (usable : ssl.usableKey key = true) (data sig : Bytes) :
    verify ssl ⟨key, none⟩ data sig .SHA_256 =
      some (ssl.verifies key data sig, ⟨key, some (.verifying key data)⟩) := by
  simp only [verify, if_true, OpenSSL.digestVerifyInit, if_pos usable, verifySignature,
    OpenSSL.digestVerifyUpdate, OpenSSL.digestVerifyFinal, List.nil_append]

/-- The first call of a session otherwise: it answers false and leaves a
context that cannot be used. -/
theorem verify_new_rejected {key : PublicKey} {method : ProtoSignAlgorithm}
    (rejected : ¬ (ssl.usableKey key = true ∧ method = .SHA_256)) (data sig : Bytes) :
    ∃ ctx, (ctx = .created ∨ ctx = .freed) ∧
      verify ssl ⟨key, none⟩ data sig method = some (false, ⟨key, some ctx⟩) := by
  by_cases supported : method = .SHA_256
  · have unusable : ¬ ssl.usableKey key = true := fun usable => rejected ⟨usable, supported⟩
    exact ⟨.created, .inl rfl, by
      simp only [verify, if_pos supported, OpenSSL.digestVerifyInit, if_neg unusable]⟩
  · exact ⟨.freed, .inr rfl, by simp only [verify, if_neg supported]⟩

theorem accepts_eq_true_iff {key : PublicKey} {call : VerifyCall} :
    accepts ssl key call = true ↔
      call.method = .SHA_256 ∧ ssl.verifies key call.data call.sig = true := by
  simp only [accepts, Bool.and_eq_true, decide_eq_true_eq]

theorem accepts_of_unusable {key : PublicKey} {call : VerifyCall}
    (unusable : ¬ (ssl.usableKey key = true ∧ call.method = .SHA_256)) :
    accepts ssl key call = false := by
  by_contra accepted
  obtain ⟨supported, valid⟩ := accepts_eq_true_iff.mp (Bool.eq_true_of_not_eq_false accepted)
  exact unusable ⟨ssl.usable_of_verifies _ _ _ valid, supported⟩

/-- On a fresh session `verify` does what it is for. -/
theorem verifyFresh_eq (key : PublicKey) (call : VerifyCall) :
    verifyFresh ssl key call = some (accepts ssl key call) := by
  by_cases usable : ssl.usableKey key = true ∧ call.method = .SHA_256
  · rw [verifyFresh, usable.2, verify_new usable.1, Option.map_some, accepts, usable.2]
    simp only [decide_true, Bool.true_and]
  · obtain ⟨ctx, _, answer⟩ := verify_new_rejected usable call.data call.sig
    rw [verifyFresh, answer, accepts_of_unusable usable, Option.map_some]

/-! ## Sequences of calls -/

/-- The answers of a session that has been fed `seen`: each signature is
checked against everything fed so far. -/
def answersAfter (ssl : OpenSSL PrivateKey PublicKey) (key : PublicKey) :
    Bytes → List VerifyCall → List Bool
  | _, [] => []
  | seen, call :: calls =>
      ssl.verifies key (seen ++ call.data) call.sig ::
        answersAfter ssl key (seen ++ call.data) calls

theorem verifyAll_verifying (key : PublicKey) (seen : Bytes) (calls : List VerifyCall) :
    verifyAll ssl ⟨key, some (.verifying key seen)⟩ calls =
      some (answersAfter ssl key seen calls,
        ⟨key, some (.verifying key (seen ++ fedData calls))⟩) := by
  induction calls generalizing seen with
  | nil => simp only [verifyAll, answersAfter, fedData, List.flatMap_nil, List.append_nil]
  | cons call calls ih =>
      simp only [verifyAll, verify_verifying, ih, Option.map_some, answersAfter, fedData,
        List.flatMap_cons, List.append_assoc]

/-- The answers are right exactly when every signature has the same standing
for all the data fed so far as for the data of its own call. -/
theorem answersAfter_right_iff (ssl : OpenSSL PrivateKey PublicKey) (key : PublicKey)
    (seen : Bytes) (calls : List VerifyCall) :
    List.Forall₂ (fun call answer => answer = accepts ssl key call) calls
        (answersAfter ssl key seen calls) ↔
      ∀ before call after, calls = before ++ call :: after →
        ssl.verifies key (seen ++ fedData before ++ call.data) call.sig =
          accepts ssl key call := by
  induction calls generalizing seen with
  | nil =>
      simp only [answersAfter, List.Forall₂.nil, true_iff]
      intro before call after split
      exact absurd split.symm (by simp)
  | cons first calls ih =>
      rw [answersAfter, List.forall₂_cons, ih]
      constructor
      · rintro ⟨head, tail⟩ before call after split
        cases before with
        | nil =>
            obtain ⟨rfl, rfl⟩ := List.cons.inj split
            simpa only [fedData, List.flatMap_nil, List.append_nil] using head
        | cons other before =>
            obtain ⟨rfl, rest⟩ := List.cons.inj split
            simpa only [fedData, List.flatMap_cons, List.append_assoc] using
              tail before call after rest
      · intro right
        refine ⟨?_, ?_⟩
        · simpa only [fedData, List.flatMap_nil, List.append_nil] using right [] first calls rfl
        · intro before call after split
          simpa only [fedData, List.flatMap_cons, List.append_assoc] using
            right (first :: before) call after (by rw [split, List.cons_append])

/-- What is asked of a sequence, with what a fresh session answers worked out. -/
theorem answersAsFresh_iff {key : PublicKey} {calls : List VerifyCall} :
    AnswersAsFresh ssl key calls ↔
      ∃ answers session, verifyAll ssl ⟨key, none⟩ calls = some (answers, session) ∧
        List.Forall₂ (fun call answer => answer = accepts ssl key call) calls answers := by
  have same : ∀ (call : VerifyCall) (answer : Bool),
      (verifyFresh ssl key call = some answer ∧
        (answer = true ↔
          call.method = .SHA_256 ∧ ssl.verifies key call.data call.sig = true)) ↔
        answer = accepts ssl key call := by
    intro call answer
    rw [verifyFresh_eq, ← accepts_eq_true_iff]
    constructor
    · rintro ⟨fresh, _⟩
      exact (Option.some.inj fresh).symm
    · rintro rfl
      exact ⟨rfl, Iff.rfl⟩
  simp only [AnswersAsFresh, same]

/-- With a usable key and a supported first method the context is initialised,
and the answers are right when the signatures have the same standing. -/
theorem answersAsFresh_usable_iff {key : PublicKey} {first : VerifyCall} {rest : List VerifyCall}
    (usable : ssl.usableKey key = true) (supported : first.method = .SHA_256) :
    AnswersAsFresh ssl key (first :: rest) ↔
      ∀ before call after, first :: rest = before ++ call :: after →
        ssl.verifies key (fedData before ++ call.data) call.sig = accepts ssl key call := by
  have run : verifyAll ssl ⟨key, none⟩ (first :: rest) =
      some (answersAfter ssl key [] (first :: rest),
        ⟨key, some (.verifying key (first.data ++ fedData rest))⟩) := by
    simp only [verifyAll, supported, verify_new usable, verifyAll_verifying, Option.map_some,
      answersAfter, List.nil_append]
  have right := answersAfter_right_iff ssl key [] (first :: rest)
  simp only [List.nil_append] at right
  rw [answersAsFresh_iff, run, ← right]
  constructor
  · rintro ⟨answers, session, same, answered⟩
    cases same
    exact answered
  · intro answered
    exact ⟨_, _, rfl, answered⟩

/-- Otherwise the first call answers false, and a second one has no context to
work with. -/
theorem answersAsFresh_unusable_iff {key : PublicKey} {first : VerifyCall}
    {rest : List VerifyCall} (unusable : ¬ (ssl.usableKey key = true ∧ first.method = .SHA_256)) :
    AnswersAsFresh ssl key (first :: rest) ↔ rest = [] := by
  obtain ⟨ctx, dead, answer⟩ := verify_new_rejected unusable first.data first.sig
  rw [answersAsFresh_iff]
  cases rest with
  | nil =>
      refine iff_of_true ⟨[false], ⟨key, some ctx⟩, ?_, ?_⟩ rfl
      · simp only [verifyAll, answer, Option.map_some]
      · exact .cons (accepts_of_unusable unusable).symm .nil
  | cons second rest =>
      refine iff_of_false ?_ (List.cons_ne_nil _ _)
      rintro ⟨answers, session, run, _⟩
      simp only [verifyAll, answer, verify_unusable dead, Option.map_none] at run
      cases run

/-- **When the cached context does no harm.** The calls on one session answer
like calls on fresh sessions exactly when there is at most one of them, or the
key and the first method can be used and every signature has the same standing
for the data of all the calls up to its own, taken together, as for a supported
method and the data of its own call alone. -/
theorem verifyAll_asFresh_iff (ssl : OpenSSL PrivateKey PublicKey) (key : PublicKey)
    (calls : List VerifyCall) :
    AnswersAsFresh ssl key calls ↔
      calls.length ≤ 1 ∨
        (ssl.usableKey key = true ∧ (∀ first ∈ calls.head?, first.method = .SHA_256) ∧
          ∀ before call after, calls = before ++ call :: after →
            ssl.verifies key (fedData before ++ call.data) call.sig =
              (call.method = .SHA_256 && ssl.verifies key call.data call.sig)) := by
  cases calls with
  | nil => exact iff_of_true ⟨[], _, rfl, .nil⟩ (.inl (Nat.zero_le _))
  | cons first rest =>
      have single : (first :: rest).length ≤ 1 ↔ rest = [] := by simp
      simp only [single, List.head?_cons, Option.mem_some_iff, forall_eq']
      by_cases usable : ssl.usableKey key = true ∧ first.method = .SHA_256
      · rw [answersAsFresh_usable_iff usable.1 usable.2]
        constructor
        · exact fun right => .inr ⟨usable.1, usable.2, right⟩
        · rintro (rfl | ⟨_, _, right⟩)
          · intro before call after split
            obtain ⟨rfl, rfl, rfl⟩ : before = [] ∧ call = first ∧ after = [] := by
              cases before with
              | nil => simpa [eq_comm] using split
              | cons other before => simp at split
            simp [fedData, accepts, usable.2]
          · exact right
      · rw [answersAsFresh_unusable_iff usable]
        constructor
        · exact .inl
        · rintro (empty | ⟨usableKey, supported, _⟩)
          · exact empty
          · exact absurd ⟨usableKey, supported⟩ usable

/-- Two messages of one peer, each correctly signed: the second is rejected,
because the context still holds the data of the first. -/
theorem second_signature_rejected :
    ¬ AnswersAsFresh OpenSSL.keyed 7
      [⟨[1], [7, 1], .SHA_256⟩, ⟨[2], [7, 2], .SHA_256⟩] := by
  rw [answersAsFresh_iff]
  rintro ⟨answers, session, run, right⟩
  have answered : answers = [true, false] := by
    cases run
    rfl
  rw [answered] at right
  cases right with
  | cons _ tail =>
      cases tail with
      | cons second _ => exact absurd second (by decide)

end PeerSession

end P2PFileSync
