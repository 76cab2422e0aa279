import P2PFileSync.Packet.Protocol

/-!
# OpenSSL as the daemon uses it

A digest context is created empty, initialised for verification under a public
key, fed with data and asked for a verdict on a signature. The documented
behaviour is:

* feeding appends to the data the context already holds;
* asking for a verdict checks the bytes accumulated so far on a copy, and
  leaves the context as it is;
* a context that is not initialised, or that was freed, must not be used. Such
  a use is undefined and returns `none`.

Creating a context is taken to succeed.

A certificate is parsed, checked against the store of trusted certificates, and
asked for its public key.
-/

set_option autoImplicit false

namespace P2PFileSync

/-- Where signing can fail. `send_pkg` ends the program at the first two and
gives up the packet at the last. -/
inductive SignError where
  | digestSignInit
  | digestSignUpdate
  | digestSignFinal
  deriving DecidableEq, Repr

/-- The keys and the checks OpenSSL makes with them. A key for which
verification cannot be initialised has no valid signature. -/
structure OpenSSL (PrivateKey PublicKey : Type) where
  publicKey : PrivateKey → PublicKey
  usableKey : PublicKey → Bool
  verifies : PublicKey → Bytes → Bytes → Bool
  digestSign : PrivateKey → Bytes → Except SignError Bytes
  usable_of_verifies : ∀ key data signature, verifies key data signature = true →
    usableKey key = true

/-- The calls on certificates. -/
structure X509Api (X509 X509Store PublicKey : Type) where
  d2iX509 : Bytes → Option X509
  i2dX509 : X509 → Bytes
  x509VerifyCert : X509Store → X509 → Bool
  x509GetPubkey : X509 → PublicKey

namespace X509Api

variable {X509 X509Store PublicKey : Type} (api : X509Api X509 X509Store PublicKey)

/-- The bytes are a certificate that verifies against the store. -/
def Verifies (store : X509Store) (rawCert : Bytes) : Prop :=
  ∃ cert, api.d2iX509 rawCert = some cert ∧ api.x509VerifyCert store cert = true

end X509Api

/-- An `EVP_MD_CTX`. -/
inductive EvpMdCtx (PublicKey : Type) where
  | created
  | verifying (key : PublicKey) (data : Bytes)
  | freed

namespace OpenSSL

variable {PrivateKey PublicKey : Type} (ssl : OpenSSL PrivateKey PublicKey)

/-- An ideal signature scheme: a signature is valid for the bytes it was made
over and for no others. -/
def Ideal : Prop :=
  ∀ key data signature, ssl.digestSign key data = .ok signature →
    ∀ other, ssl.verifies (ssl.publicKey key) other signature = true ↔ other = data

/-- An executable ideal scheme: the key and the data themselves serve as the
signature. -/
def keyed : OpenSSL UInt8 UInt8 where
  publicKey key := key
  usableKey _ := true
  verifies key data signature := signature = key :: data
  digestSign key data := .ok (key :: data)
  usable_of_verifies := fun _ _ _ _ => rfl

theorem keyed_ideal : keyed.Ideal := by
  intro key data signature signed other
  cases signed
  simp only [keyed, List.cons.injEq, true_and, decide_eq_true_eq]
  exact eq_comm

/-- `EVP_DigestVerifyInit` on a new context. -/
def digestVerifyInit (key : PublicKey) : Bool × EvpMdCtx PublicKey :=
  if ssl.usableKey key then (true, .verifying key []) else (false, .created)

/-- `EVP_DigestVerifyUpdate`. -/
def digestVerifyUpdate (ctx : EvpMdCtx PublicKey) (data : Bytes) :
    Option (Bool × EvpMdCtx PublicKey) :=
  match ctx with
  | .verifying key seen => some (true, .verifying key (seen ++ data))
  | .created => none
  | .freed => none

/-- `EVP_DigestVerifyFinal`. -/
def digestVerifyFinal (ctx : EvpMdCtx PublicKey) (signature : Bytes) : Option Bool :=
  match ctx with
  | .verifying key seen => some (ssl.verifies key seen signature)
  | .created => none
  | .freed => none

end OpenSSL

end P2PFileSync
