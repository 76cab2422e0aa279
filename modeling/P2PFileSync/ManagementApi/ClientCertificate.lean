import P2PFileSync.ManagementApi.Base64
import P2PFileSync.ManagementApi.Replies

/-!
# The certificate of the device

Each pass of the loop in `client_certificate` reads the file that the pass before
left, and asks the server for a new one if it does not load. The file that the
last pass writes is read by no pass, so a certificate that arrives with the last
reply ends the program (`clientCertificate_correct_iff`). A reply that is not well
formed ends the call where it is read (`certificatePasses_returns_iff`).

Whether `d2i_PKCS12_fp` loads a file is a parameter, a predicate on its content.
-/

set_option autoImplicit false

namespace P2PFileSync

open JsonModel

/-! ## The model -/

section Model

variable (parse : Bytes → Option Json) (loads : Bytes → Bool) (clientCertificatePath : Bytes)

/-- `ClientCertResponse::PSCK12_certificate`. -/
def JsonModel.psck12Certificate (response : JsonModel) : Except Fault Bytes :=
  response.requireValue (utf8 "PSCK12_certificate")

/-- One request for the certificate: the bytes it writes to the file, if it writes
any. -/
def downloadCertificate (reply : Option Bytes) : Except Fault (Option Bytes) := do
  let resp ← ofBuffer parse reply
  if ← resp.success then return some (Base64.decode (← resp.psck12Certificate))
  else
    let _ ← resp.message
    return none

/-- What a call gives, the content of the certificate file afterwards, and what the
downloads of the call stored in it, in order. -/
structure CertificateCall where
  result : Except Fault Bytes
  file : Option Bytes
  stored : List Bytes

/-- A call whose first download stored the given bytes or nothing. -/
def CertificateCall.after (stored : Option Bytes) (call : CertificateCall) : CertificateCall :=
  { call with stored := stored.toList ++ call.stored }

/-- The passes that are left of the loop, given the number of the next one and the
content of the file. -/
def certificatePasses (replies : ℕ → Option Bytes) : ℕ → ℕ → Option Bytes → CertificateCall
  | 0, _, file => ⟨.error .fatal, file, []⟩
  | left + 1, retries, file =>
      if file.any loads then ⟨.ok clientCertificatePath, file, []⟩
      else
        -- a file that does not load has been removed
        match downloadCertificate parse (replies retries) with
        | .error fault => ⟨.error fault, none, []⟩
        | .ok stored => (certificatePasses replies left (retries + 1) stored).after stored

/-- `DeviceContextImpl::client_certificate`, with a limit in place of
`MAX_DOWNLOAD_RETIRES`; the given reply answers the download of each pass. -/
def clientCertificate (maxDownloadRetires : ℕ) (replies : ℕ → Option Bytes)
    (file : Option Bytes) : CertificateCall :=
  certificatePasses parse loads clientCertificatePath replies maxDownloadRetires 0 file

/-- The call returns the path if the file was valid or a download stored a valid
one, and only then; the file is valid when it returns, and the program ends only
if none was. -/
structure CertificateCall.Correct (file : Option Bytes) (call : CertificateCall) : Prop where
  returned : call.result = .ok clientCertificatePath ↔
    file.any loads = true ∨ ∃ cert ∈ call.stored, loads cert = true
  valid : call.result = .ok clientCertificatePath → call.file.any loads = true
  ended : call.result = .error .fatal →
    file.any loads = false ∧ ∀ cert ∈ call.stored, loads cert = false

/-- Well-formed replies to a request for the certificate. -/
def CertificateShape : Json → Prop :=
  Shaped (StringMember (utf8 "PSCK12_certificate")) (OptionalString (utf8 "message"))

/-- Replies with a valid certificate. -/
def ValidReply : Json → Prop :=
  Shaped
    (fun body => ∃ text, body.lookup (utf8 "PSCK12_certificate") = some (.string text) ∧
      loads (Base64.decode (cString text)) = true)
    fun _ => False

end Model

/-! ## One download -/

section Downloads

variable {parse : Bytes → Option Json} {loads : Bytes → Bool} {reply : Option Bytes}

/-- A download returns on well-formed replies. -/
theorem downloadCertificate_returns_iff :
    Returns (downloadCertificate parse reply) ↔ CertificateShape (document parse reply) := by
  refine judged_iff (not_returns_error _) ?_ ?_ ?_ ?_
  · intro model members node
    rw [returns_bind_pure, JsonModel.psck12Certificate, requireValue_returns_iff node]
  · intro model members node
    rw [returns_bind_pure, message_returns_iff node]
  · intro model node isNode other
    rw [JsonModel.psck12Certificate, requireValue_of_not_object isNode other]
    exact not_returns_error _
  · intro model node isNode other
    rw [message_of_not_object isNode other]
    exact not_returns_error _

/-- A download that stores a valid certificate. -/
def StoresValid (loads : Bytes → Bool) (download : Except Fault (Option Bytes)) : Prop :=
  ∃ cert, download = .ok (some cert) ∧ loads cert = true

theorem not_storesValid_error (fault : Fault) : ¬ StoresValid loads (.error fault) := by
  rintro ⟨_, impossible, _⟩
  cases impossible

/-- A failure reported by the server stores nothing. -/
theorem not_storesValid_message (model : JsonModel) :
    ¬ StoresValid loads (do
        let _ ← model.message
        return none) := by
  cases model.message with
  | error fault => exact not_storesValid_error fault
  | ok text =>
      rintro ⟨_, impossible, _⟩
      cases impossible

theorem storesValid_certificate_iff {model : JsonModel} {members : Members}
    (node : model.valueNode = .ok (.object members)) :
    StoresValid loads (do return some (Base64.decode (← model.psck12Certificate))) ↔
      ∃ text, members.lookup (utf8 "PSCK12_certificate") = some (.string text) ∧
        loads (Base64.decode (cString text)) = true := by
  by_cases certificate : StringMember (utf8 "PSCK12_certificate") members
  · obtain ⟨text, found⟩ := certificate
    rw [JsonModel.psck12Certificate, requireValue_of_string node found, found]
    constructor
    · rintro ⟨_, ⟨⟩, valid⟩
      exact ⟨text, rfl, valid⟩
    · rintro ⟨_, ⟨⟩, valid⟩
      exact ⟨_, rfl, valid⟩
  · refine iff_of_false ?_ fun ⟨text, found, _⟩ => certificate ⟨text, found⟩
    rw [← requireValue_returns_iff node] at certificate
    rw [JsonModel.psck12Certificate]
    cases read : model.requireValue (utf8 "PSCK12_certificate") with
    | error fault => exact not_storesValid_error fault
    | ok value => exact absurd ⟨value, read⟩ certificate

/-- A download stores a valid certificate when the reply holds one. -/
theorem storesValid_iff :
    StoresValid loads (downloadCertificate parse reply) ↔
      ValidReply loads (document parse reply) := by
  refine judged_iff (not_storesValid_error _) ?_ ?_ ?_ ?_
  · intro model members node
    exact storesValid_certificate_iff node
  · intro model members _
    exact iff_of_false (not_storesValid_message model) id
  · intro model node isNode other
    rw [JsonModel.psck12Certificate, requireValue_of_not_object isNode other]
    exact not_storesValid_error _
  · intro model _ _ _
    exact not_storesValid_message model

end Downloads

/-! ## The passes -/

section Passes

variable {parse : Bytes → Option Json} (loads : Bytes → Bool) (clientCertificatePath : Bytes)
  {replies : ℕ → Option Bytes}

/-- What is returned is the path, and the file loads then. -/
theorem certificatePasses_valid {left retries : ℕ} {file : Option Bytes} {value : Bytes}
    (returned : (certificatePasses parse loads clientCertificatePath replies left retries
      file).result = .ok value) :
    value = clientCertificatePath ∧
      (certificatePasses parse loads clientCertificatePath replies left retries
        file).file.any loads = true := by
  induction left generalizing retries file with
  | zero => cases returned
  | succ left ih =>
      rw [certificatePasses] at returned ⊢
      by_cases loaded : file.any loads = true
      · rw [if_pos loaded] at returned ⊢
        cases returned
        exact ⟨rfl, loaded⟩
      · rw [if_neg loaded] at returned ⊢
        cases download : downloadCertificate parse (replies retries) with
        | error fault =>
            rw [download] at returned
            cases returned
        | ok stored =>
            rw [download] at returned
            exact ih returned

/-- The call returns when the file loads at the start, or when one of the downloads
before the last pass stores a valid certificate and the replies before it are well
formed: a reply that is not ends the call. -/
theorem certificatePasses_returns_iff (left retries : ℕ) (file : Option Bytes) :
    Returns (certificatePasses parse loads clientCertificatePath replies (left + 1) retries
        file).result ↔
      file.any loads = true ∨
        ∃ k < left, (∀ j < k, CertificateShape (document parse (replies (retries + j)))) ∧
          ValidReply loads (document parse (replies (retries + k))) := by
  induction left generalizing retries file with
  | zero =>
      rw [certificatePasses]
      by_cases loaded : file.any loads = true
      · rw [if_pos loaded]
        exact iff_of_true (returns_ok _) (.inl loaded)
      · rw [if_neg loaded]
        refine iff_of_false ?_ ?_
        · cases downloadCertificate parse (replies retries) with
          | error fault => exact not_returns_error fault
          | ok stored => exact not_returns_error .fatal
        · rintro (impossible | ⟨_, impossible, _⟩)
          · exact loaded impossible
          · exact absurd impossible (Nat.not_lt_zero _)
  | succ left ih =>
      rw [certificatePasses]
      by_cases loaded : file.any loads = true
      · rw [if_pos loaded]
        exact iff_of_true (returns_ok _) (.inl loaded)
      · rw [if_neg loaded, or_iff_right loaded, Nat.exists_lt_succ_left]
        cases download : downloadCertificate parse (replies retries) with
        | error fault =>
            -- the first reply is not well formed, so no later one is read
            have unshaped : ¬ CertificateShape (document parse (replies retries)) := fun shape => by
              obtain ⟨_, stored⟩ := downloadCertificate_returns_iff.mpr shape
              cases download.symm.trans stored
            have invalid : ¬ ValidReply loads (document parse (replies retries)) := fun valid => by
              obtain ⟨_, stored, _⟩ := storesValid_iff.mpr valid
              cases download.symm.trans stored
            refine iff_of_false (not_returns_error fault) ?_
            rintro (⟨_, valid⟩ | ⟨k, _, shapes, _⟩)
            · exact invalid valid
            · exact unshaped (shapes 0 (Nat.succ_pos k))
        | ok stored =>
            have shape : CertificateShape (document parse (replies retries)) :=
              downloadCertificate_returns_iff.mp ⟨stored, download⟩
            have valid : ValidReply loads (document parse (replies retries)) ↔
                stored.any loads = true := by
              rw [← storesValid_iff, download, StoresValid]
              cases stored <;> simp
            refine (ih (retries + 1) stored).trans (or_congr ?_ ?_)
            · simp only [Nat.not_lt_zero, false_implies, implies_true, true_and, Nat.add_zero,
                valid]
            · simp only [Nat.forall_lt_succ_left, Nat.add_zero, shape, true_and, Nat.add_assoc,
                Nat.add_comm 1]

variable {stores : ℕ → Option Bytes}
  (downloads : ∀ retries, downloadCertificate parse (replies retries) = .ok (stores retries))

include downloads

/-- One pass on replies that are answered. -/
theorem certificatePasses_succ (left retries : ℕ) (file : Option Bytes) :
    certificatePasses parse loads clientCertificatePath replies (left + 1) retries file =
      if file.any loads then ⟨.ok clientCertificatePath, file, []⟩
      else (certificatePasses parse loads clientCertificatePath replies left (retries + 1)
        (stores retries)).after (stores retries) := by
  rw [certificatePasses, downloads retries]

/-- A valid certificate is stored by one of the downloads of all passes, unless the
file loads at the start. -/
theorem certificatePasses_stored_iff (left retries : ℕ) (file : Option Bytes) :
    (∃ cert ∈ (certificatePasses parse loads clientCertificatePath replies left retries
        file).stored, loads cert = true) ↔
      file.any loads = false ∧ ∃ k < left, (stores (retries + k)).any loads = true := by
  induction left generalizing retries file with
  | zero =>
      refine iff_of_false ?_ ?_
      · rintro ⟨_, impossible, _⟩
        cases impossible
      · rintro ⟨_, _, impossible, _⟩
        exact absurd impossible (Nat.not_lt_zero _)
  | succ left ih =>
      rw [certificatePasses_succ loads clientCertificatePath downloads]
      by_cases loaded : file.any loads = true
      · rw [if_pos loaded, loaded]
        simp
      · rw [if_neg loaded, and_iff_right (Bool.eq_false_iff.mpr loaded), Nat.exists_lt_succ_left,
          Nat.add_zero]
        have first : (∃ cert ∈ (stores retries).toList, loads cert = true) ↔
            (stores retries).any loads = true := by
          cases stores retries <;> simp
        have later := ih (retries + 1) (stores retries)
        simp only [CertificateCall.after, List.mem_append, or_and_right, exists_or, first, later,
          Nat.add_assoc, Nat.add_comm 1]
        by_cases stored : (stores retries).any loads = true
        · simp [stored]
        · simp [stored]

omit downloads in
/-- A call is correct when the path is returned as promised. -/
theorem certificatePasses_correct_iff (left retries : ℕ) (file : Option Bytes) :
    (certificatePasses parse loads clientCertificatePath replies left retries file).Correct
        loads clientCertificatePath file ↔
      ((certificatePasses parse loads clientCertificatePath replies left retries file).result =
          .ok clientCertificatePath ↔
        file.any loads = true ∨ ∃ cert ∈ (certificatePasses parse loads clientCertificatePath
          replies left retries file).stored, loads cert = true) := by
  constructor
  · exact CertificateCall.Correct.returned
  · intro returned
    refine ⟨returned, fun ok => (certificatePasses_valid loads clientCertificatePath ok).2, ?_⟩
    intro fatal
    rw [fatal] at returned
    have none_valid := mt returned.mpr fun impossible => by cases impossible
    push Not at none_valid
    simpa using none_valid

end Passes

/-! ## When the call keeps its promise -/

/-- **A certificate that arrives with the last reply is lost.** The call is correct
exactly if the file was valid at the start, a reply before the last one holds a
valid certificate, or the last one holds none. -/
theorem clientCertificate_correct_iff (parse : Bytes → Option Json) (loads : Bytes → Bool)
    (clientCertificatePath : Bytes) (maxDownloadRetires : ℕ) (replies : ℕ → Option Bytes)
    (file : Option Bytes) (positive : 1 ≤ maxDownloadRetires)
    (shaped : ∀ retries, CertificateShape (document parse (replies retries))) :
    (clientCertificate parse loads clientCertificatePath maxDownloadRetires replies file).Correct
        loads clientCertificatePath file ↔
      file.any loads = true ∨
        (∃ retries, retries + 1 < maxDownloadRetires ∧
          ValidReply loads (document parse (replies retries))) ∨
        ¬ ValidReply loads (document parse (replies (maxDownloadRetires - 1))) := by
  choose stores downloads using fun retries =>
    downloadCertificate_returns_iff.mpr (shaped retries)
  have valid (retries : ℕ) : ValidReply loads (document parse (replies retries)) ↔
      (stores retries).any loads = true := by
    rw [← storesValid_iff, downloads retries, StoresValid]
    cases stores retries <;> simp
  obtain ⟨last, rfl⟩ : ∃ last, maxDownloadRetires = last + 1 := ⟨maxDownloadRetires - 1, by omega⟩
  simp only [valid, Nat.add_lt_add_iff_right, Nat.add_sub_cancel]
  have returned : (certificatePasses parse loads clientCertificatePath replies (last + 1) 0
        file).result = .ok clientCertificatePath ↔
      file.any loads = true ∨ ∃ k < last, (stores k).any loads = true := by
    have returns : Returns (certificatePasses parse loads clientCertificatePath replies (last + 1)
        0 file).result ↔ _ := certificatePasses_returns_iff loads clientCertificatePath last 0 file
    simp only [shaped, implies_true, true_and, valid, Nat.zero_add] at returns
    refine ⟨fun ok => returns.mp ⟨_, ok⟩, fun found => ?_⟩
    obtain ⟨value, ok⟩ := returns.mpr found
    rw [ok, (certificatePasses_valid loads clientCertificatePath ok).1]
  have stored := certificatePasses_stored_iff loads clientCertificatePath downloads (last + 1) 0
    file
  simp only [Nat.zero_add, Nat.exists_lt_succ_right] at returned stored
  rw [clientCertificate, certificatePasses_correct_iff, returned, stored]
  by_cases start : file.any loads = true
  · exact iff_of_true (iff_of_true (.inl start) (.inl start)) (.inl start)
  · rw [or_iff_right start, or_iff_right start, or_iff_right start,
      and_iff_right (Bool.eq_false_iff.mpr start)]
    -- with no valid file at the start, only the last reply tells the two apart
    constructor
    · intro promised
      by_cases late : (stores last).any loads = true
      · exact .inl (promised.mpr (.inr late))
      · exact .inr late
    · rintro (early | late)
      · exact iff_of_true early (.inl early)
      · exact (or_iff_left late).symm

/-- A reply with a certificate, and a reported failure. -/
def certificateReply : Bytes :=
  utf8 "\x7b\"success\":true,\"responseBody\":\x7b\"PSCK12_certificate\":\"QUJD\"\x7d\x7d"

def refusedReply : Bytes := utf8 "\x7b\"success\":false,\"responseBody\":\x7b\x7d\x7d"

/-- A parser, on these two texts. -/
def parseCertificate (text : Bytes) : Option Json :=
  if text = certificateReply then
    some (.object [(utf8 "success", .bool true),
      (utf8 "responseBody", .object [(utf8 "PSCK12_certificate", .string (utf8 "QUJD"))])])
  else if text = refusedReply then
    some (.object [(utf8 "success", .bool false), (utf8 "responseBody", .object [])])
  else none

/-- The certificate arrives with the reply of the given number, and all others are
refused. -/
def arrivesAt (number retries : ℕ) : Option Bytes :=
  some (if retries = number then certificateReply else refusedReply)

/-- A corrupt file, and a certificate with the second of three replies. -/
theorem clientCertificate_second_reply :
    (clientCertificate parseCertificate (· == utf8 "ABC") (utf8 "cert.p12") 3 (arrivesAt 1)
      (some [0])).Correct (· == utf8 "ABC") (utf8 "cert.p12") (some [0]) := by
  have certificate : document parseCertificate (some certificateReply) = .object [
      (utf8 "success", .bool true),
      (utf8 "responseBody", .object [(utf8 "PSCK12_certificate", .string (utf8 "QUJD"))])] := rfl
  have refused : document parseCertificate (some refusedReply) = .object [
      (utf8 "success", .bool false), (utf8 "responseBody", .object [])] := rfl
  refine (clientCertificate_correct_iff _ _ _ 3 (arrivesAt 1) _ (by decide) ?_).mpr
    (.inr (.inl ⟨1, by decide, ?_⟩))
  · intro retries
    rw [arrivesAt]
    split
    case isTrue =>
      rw [certificate]
      exact ⟨_, rfl⟩
    case isFalse =>
      rw [refused]
      intro node impossible
      cases impossible
  · rw [arrivesAt, if_pos rfl, certificate]
    exact ⟨_, rfl, rfl⟩

/-- No file, and a certificate with the third of three replies: the program ends
with a valid file on disk. -/
theorem clientCertificate_last_reply :
    (clientCertificate parseCertificate (· == utf8 "ABC") (utf8 "cert.p12") 3 (arrivesAt 2)
        none).result = .error .fatal ∧
      (clientCertificate parseCertificate (· == utf8 "ABC") (utf8 "cert.p12") 3 (arrivesAt 2)
        none).file = some (utf8 "ABC") ∧
      ¬ (clientCertificate parseCertificate (· == utf8 "ABC") (utf8 "cert.p12") 3 (arrivesAt 2)
        none).Correct (· == utf8 "ABC") (utf8 "cert.p12") none := by
  have call : clientCertificate parseCertificate (· == utf8 "ABC") (utf8 "cert.p12") 3
      (arrivesAt 2) none = ⟨.error .fatal, some (utf8 "ABC"), [utf8 "ABC"]⟩ := rfl
  rw [call]
  refine ⟨rfl, rfl, ?_⟩
  intro correct
  have impossible := correct.returned.mpr (.inr ⟨utf8 "ABC", List.mem_singleton_self _, rfl⟩)
  cases impossible

end P2PFileSync
