import P2PFileSync.ManagementApi.JsonModel

/-!
# Registering a device

`dev_ctx` builds the device context from the configuration file. Without a file it
registers the device: `register_client` saves the configuration and keeps nothing
in memory, and `dev_ctx` goes on with the null pointer it started with.

Main result: `first_run_never_agrees`. The run after a restart, which loads the
saved file, does return the context of the reply.

The parser and the writer of rapidjson are parameters.
-/

set_option autoImplicit false

namespace P2PFileSync

open JsonModel

/-- The members of `DeviceContextImpl` that come from the configuration. -/
structure DeviceContext where
  deviceId : Bytes
  loginToken : Bytes
  deriving DecidableEq, Repr

/-- What a call gives, and the content of the configuration file afterwards. -/
abbrev OnDisk (α : Type) := Except Fault α × Option Bytes

section Model

variable (parse : Bytes → Option Json) (write : Json → Bytes)

/-! ## The configuration -/

/-- `RegisterClientResponse::device_id`. -/
def JsonModel.clientId (response : JsonModel) : Except Fault Bytes :=
  response.requireValue (utf8 "client_id")

/-- `RegisterClientResponse::jwt_key`. -/
def JsonModel.clientToken (response : JsonModel) : Except Fault Bytes :=
  response.requireValue (utf8 "login_token")

/-- `RegisterClientResponse::get_enable_url`. -/
def JsonModel.enableUrl (response : JsonModel) : Except Fault Bytes :=
  response.requireValue (utf8 "enable_url")

/-- `DeviceConfiguration(const RegisterClientResponse&)`. -/
def deviceConfigurationOfResponse (response : JsonModel) : Except Fault JsonModel := do
  if (← response.clientId) = [] then throw .runtimeError
  if (← response.clientToken) = [] then throw .runtimeError
  let (_, conf) ← addValue ⟨.object [], false⟩ (utf8 "jwt_key") (← response.clientToken)
  let (_, conf) ← conf.addValue (utf8 "device_id") (← response.clientId)
  return conf

/-- `DeviceConfiguration(const std::filesystem::path&)`, given the content of the
file; without a file the document stays null. -/
def deviceConfigurationOfFile (file : Option Bytes) : Except Fault JsonModel :=
  match file with
  | none => .ok ⟨.null, false⟩
  | some content => ofBuffer parse (some content)

/-- The content of the file that `save` writes. -/
def savedText (conf : JsonModel) : Bytes := cString (write conf.root)

/-- The constructor of `DeviceContextImpl`; the configuration is a pointer. -/
def deviceContext (devConf : Option JsonModel) : Except Fault DeviceContext :=
  match devConf with
  | none => .error .nullPointer
  | some conf => do
      return ⟨← conf.requireValue (utf8 "device_id"), ← conf.requireValue (utf8 "jwt_key")⟩

/-! ## The two calls -/

/-- `ManagementContext::register_client`, given the reply to the request, which is
absent when the transfer failed. -/
def registerClient (reply file : Option Bytes) : OnDisk Unit :=
  match reply with
  | none => (.error .fatal, file)
  | some text =>
      match ofBuffer parse (some text) with
      | .error fault => (.error fault, file)
      | .ok response =>
          match response.success with
          | .error fault => (.error fault, file)
          | .ok false =>
              match response.message with
              | .error fault => (.error fault, file)
              | .ok _ => (.error .fatal, file)
          | .ok true =>
              match deviceConfigurationOfResponse response with
              | .error fault => (.error fault, file)
              | .ok conf =>
                  match response.enableUrl with
                  | .error fault => (.error fault, some (savedText write conf))
                  | .ok _ => (.ok (), some (savedText write conf))

/-- `ManagementContext::dev_ctx` on an instance that has a device context or not
yet. -/
def devCtx (deviceCtxInstance : Option DeviceContext) (reply file : Option Bytes) :
    OnDisk DeviceContext :=
  match deviceCtxInstance with
  | some context => (.ok context, file)
  | none =>
      match file with
      | some content =>
          (do
            let conf ← deviceConfigurationOfFile parse (some content)
            deviceContext (some conf), file)
      | none =>
          match registerClient parse write reply none with
          | (.error fault, file) => (.error fault, file)
          | (.ok (), file) => (deviceContext none, file)

end Model

/-! ## What is saved -/

/-- The members of the saved configuration. -/
def savedMembers (id token : Bytes) : Members :=
  [(utf8 "jwt_key", .string token), (utf8 "device_id", .string id)]

def savedDocument (id token : Bytes) : Json := .object (savedMembers id token)

/-- A successful reply to the registration, with a device id and a token. -/
structure Registered (parse : Bytes → Option Json) (text id token : Bytes)
    (response : JsonModel) : Prop where
  parsed : ofBuffer parse (some text) = .ok response
  success : response.success = .ok true
  clientId : response.clientId = .ok id
  clientToken : response.clientToken = .ok token
  id_ne_nil : id ≠ []
  token_ne_nil : token ≠ []

section Registered

variable {parse : Bytes → Option Json} {write : Json → Bytes} {text id token : Bytes}
  {response : JsonModel}

theorem Registered.configuration (registered : Registered parse text id token response) :
    deviceConfigurationOfResponse response = .ok ⟨savedDocument id token, false⟩ := by
  have first := addValue_plain [] (utf8 "jwt_key") token
  have second := addValue_plain [(utf8 "jwt_key", .string token)] (utf8 "device_id") id
  have absent : ([(utf8 "jwt_key", Json.string token)].lookup (utf8 "device_id")).isSome = false :=
    rfl
  rw [absent, if_neg Bool.false_ne_true] at second
  rw [List.lookup_nil, Option.isSome_none, if_neg Bool.false_ne_true, List.nil_append] at first
  simp only [deviceConfigurationOfResponse, registered.clientId, registered.clientToken, bind,
    Except.bind, if_neg registered.id_ne_nil, if_neg registered.token_ne_nil, pure, Except.pure,
    first, second]
  rfl

/-- The first run saves the configuration and does not return. -/
theorem Registered.first_run (registered : Registered parse text id token response)
    (write : Json → Bytes) :
    ∃ fault, devCtx parse write none (some text) none =
      (.error fault, some (cString (write (savedDocument id token)))) := by
  rw [devCtx, registerClient, registered.parsed]
  simp only [registered.success, registered.configuration, savedText]
  cases response.enableUrl with
  | error fault => exact ⟨fault, rfl⟩
  | ok url => exact ⟨.nullPointer, rfl⟩

/-- A run that finds the saved configuration returns its id and token. -/
theorem devCtx_of_saved (reply : Option Bytes)
    (parsed : parse (cString (write (savedDocument id token))) = some (savedDocument id token))
    (cleanId : cString id = id) (cleanToken : cString token = token) :
    (devCtx parse write none reply (some (cString (write (savedDocument id token))))).1 =
      .ok ⟨id, token⟩ := by
  have content : document parse (some (cString (write (savedDocument id token)))) =
      savedDocument id token := by
    rw [document, Option.bind_some, cString_cString, parsed, Option.getD_some]
  have conf : ofBuffer parse (some (cString (write (savedDocument id token)))) =
      .ok (ofMembers (savedMembers id token)) := ofBuffer_of_object content
  have node : (ofMembers (savedMembers id token)).valueNode =
      .ok (.object (savedMembers id token)) := valueNode_plain rfl
  have device : (ofMembers (savedMembers id token)).requireValue (utf8 "device_id") = .ok id := by
    rw [requireValue_of_object node]
    change Except.ok (cString id) = _
    rw [cleanId]
  have key : (ofMembers (savedMembers id token)).requireValue (utf8 "jwt_key") = .ok token := by
    rw [requireValue_of_object node]
    change Except.ok (cString token) = _
    rw [cleanToken]
  rw [devCtx]
  simp only [deviceConfigurationOfFile, conf, bind, Except.bind, deviceContext, device, key, pure,
    Except.pure]

/-- The first run and a run after a restart return the context of the reply. -/
def RunsAgree (parse : Bytes → Option Json) (write : Json → Bytes) (reply : Option Bytes)
    (id token : Bytes) : Prop :=
  (devCtx parse write none reply none).1 = .ok ⟨id, token⟩ ∧
    ∀ later, (devCtx parse write none later (devCtx parse write none reply none).2).1 =
      .ok ⟨id, token⟩

/-- **The first run of a device.** After every successful registration the first
run fails, so the two runs never agree; a run after a restart returns the
context of the reply. -/
theorem first_run_never_agrees (registered : Registered parse text id token response)
    (parsed : parse (cString (write (savedDocument id token))) = some (savedDocument id token)) :
    ¬ RunsAgree parse write (some text) id token ∧
      (∃ fault, (devCtx parse write none (some text) none).1 = .error fault) ∧
      ∀ later, (devCtx parse write none later
        (devCtx parse write none (some text) none).2).1 = .ok ⟨id, token⟩ := by
  obtain ⟨fault, run⟩ := registered.first_run write
  have restart (later : Option Bytes) := devCtx_of_saved later parsed
    (cString_of_requireValue registered.clientId) (cString_of_requireValue registered.clientToken)
  rw [RunsAgree, run]
  refine ⟨?_, ⟨fault, rfl⟩, restart⟩
  rintro ⟨impossible, _⟩
  cases impossible

end Registered

/-- The reply to a registration. -/
def sampleReply : Bytes :=
  utf8 "\x7b\"success\":true,\"responseBody\":\x7b\"client_id\":\"7\"," ++
    utf8 "\"login_token\":\"k\",\"enable_url\":\"u\"\x7d\x7d"

/-- The configuration saved after it. -/
def sampleFile : Bytes := utf8 "\x7b\"jwt_key\":\"k\",\"device_id\":\"7\"\x7d"

/-- A parser, on these two texts. -/
def parseSample (text : Bytes) : Option Json :=
  if text = sampleReply then
    some (.object [(utf8 "success", .bool true), (utf8 "responseBody",
      .object [(utf8 "client_id", .string (utf8 "7")), (utf8 "login_token", .string (utf8 "k")),
        (utf8 "enable_url", .string (utf8 "u"))])])
  else if text = sampleFile then some (savedDocument (utf8 "7") (utf8 "k"))
  else none

theorem registered_sample : ∃ response,
    Registered parseSample sampleReply (utf8 "7") (utf8 "k") response :=
  ⟨_, rfl, rfl, rfl, rfl, by decide, by decide⟩

/-- The run after the restart. -/
theorem first_run_sample_restarted :
    (devCtx parseSample (fun _ => sampleFile) none none (devCtx parseSample (fun _ => sampleFile)
      none (some sampleReply) none).2).1 = .ok ⟨utf8 "7", utf8 "k"⟩ := by
  obtain ⟨response, registered⟩ := registered_sample
  exact (first_run_never_agrees registered rfl).2.2 none

/-- The first run, which ends in a null pointer. -/
theorem first_run_sample_fails :
    ¬ RunsAgree parseSample (fun _ => sampleFile) (some sampleReply) (utf8 "7") (utf8 "k") := by
  have failed : (devCtx parseSample (fun _ => sampleFile) none (some sampleReply) none).1 =
      .error .nullPointer := rfl
  rintro ⟨impossible, _⟩
  rw [failed] at impossible
  cases impossible

end P2PFileSync
