import Mathlib.Logic.Function.Basic
import P2PFileSync.KnownHosts
import P2PFileSync.ManagementApi.ClientCertificate
import P2PFileSync.ManagementApi.DeviceInfo
import P2PFileSync.Utils.ConfigReader

/-!
# Starting the daemon, again and again

`main` loads its settings or saves the default ones, makes the device context, waits
until the device is enabled and then serves its peers. What it leaves on disk is what
the next start finds: the settings, the configuration of the device, and its
certificate.

A start that registers the device ends the program, so it takes another start to
serve; and from then on no start registers again, and every one of them that gets a
device context gets the id and the token of the one registration
(`starts_keep_identity`).
-/

set_option autoImplicit false

namespace P2PFileSync

namespace Startup

open DeviceInfo JsonModel

/-! ## The model -/

/-- The content of the file under a path. -/
abbrev Files := Bytes → Option Bytes

/-- The values of a configuration made without arguments. -/
def defaultConfig : Config where
  workerThreadNum := 5
  packetCachedSize := 100
  managementServerUrl := utf8 "http://10.10.0.118"
  p2pPort := 3324
  p2pListenAddress := []
  p2pListenInterface := utf8 "eth0"
  mountPoint := utf8 "/mnt/p2pfs"
  configFolder := utf8 "/tmp/p2p_sync"
  manageSockUrl := utf8 "/tmp/p2p_sync/sync.sock"
  clientCertificatePath := utf8 "/tmp/p2p_sync/device.p12"
  serverCertificatePath := utf8 "/tmp/p2p_sync/client_sign_root.crt"
  clientConfigurationPath := utf8 "/tmp/p2p_sync/device.cfg"

/-- The libraries the daemon uses, and its flag `config`. -/
structure Installation where
  parse : Bytes → Option Json
  write : Json → Bytes
  yaml : YamlCpp
  /-- `d2i_PKCS12_fp` loads a file of this content. -/
  loads : Bytes → Bool
  /-- `PKCS12_parse` takes it apart with this password, and the certificates in it
  verify the one of the device. -/
  opens : Bytes → Bytes → Bool
  vlogIsOn : Bool
  configFile : Bytes

/-- What one start meets: the flag `host` if it is set, whether the settings can be
saved, whether the folder is there or can be made, whether the two sockets can be
opened, and the replies of the server. -/
structure Surroundings where
  host : Option Bytes
  isOpen : Bool
  fail : Bool
  folder : Bool
  manages : Bool
  registration : Option Bytes
  activation : List (Option Bytes)
  listens : Bool
  certificates : ℕ → Option Bytes
  peers : Option Bytes

/-- What became of a start. -/
inductive Outcome where
  | ended (fault : Fault)
  | waiting (context : DeviceContext)
  | serving (context : DeviceContext) (peers : List (Bytes × IPAddress))

/-- The device context a start got, if it got that far. -/
def Outcome.context? : Outcome → Option DeviceContext
  | ended _ => none
  | waiting context => some context
  | serving context _ => some context

/-- Whether a start asked the server to register the device, and its outcome. -/
structure Report where
  registers : Bool
  outcome : Outcome

section Model

variable (installation : Installation) (surroundings : Surroundings)

/-- The settings of `main`, which it saves if there are none. -/
def loadSettings (files : Files) : Except Fault Config × Files :=
  match files installation.configFile with
  | some content =>
      (match loadConfig installation.yaml (some content) with
        | .nullPointer => .error .fatal
        | .config config => .ok config
        | .thrown => .error .runtimeError, files)
  | none =>
      let (saved, content) := saveConfig installation.yaml defaultConfig surroundings.isOpen
        surroundings.fail none
      (if saved then .ok defaultConfig else .error .fatal,
        Function.update files installation.configFile content)

/-- `P2PServerContext::init` after its call of `client_certificate`, and `start`. -/
def greet (context : DeviceContext) (call : CertificateCall) : Outcome :=
  match call.result with
  | .error fault => .ended fault
  | .ok _ =>
      if call.file.any fun cert =>
          installation.loads cert && installation.opens cert context.deviceId then
        match startPeers installation.parse addressPatterns surroundings.peers with
        | .error fault => .ended fault
        | .ok peers => .serving context peers
      else .ended .fatal

/-- `P2PServerContext::init`. A false result ends the program in `main`. -/
def init (config : Config) (context : DeviceContext) (files : Files) : Outcome × Files :=
  match awaitEnabled installation.parse installation.vlogIsOn context.loginToken
      surroundings.activation with
  | .error fault => (.ended fault, files)
  | .ok false => (.waiting context, files)
  | .ok true =>
      if surroundings.listens then
        let call := clientCertificate installation.parse installation.loads
          config.clientCertificatePath 3 surroundings.certificates
          (files config.clientCertificatePath)
        (greet installation surroundings context call,
          Function.update files config.clientCertificatePath call.file)
      else (.ended .fatal, files)

/-- `main` from the management interface on. -/
def serve (config : Config) (files : Files) : Report × Files :=
  if config.manageSockUrl.length ≤ 108 && surroundings.manages then
    -- the socket of an earlier start is removed
    let files := Function.update files config.manageSockUrl none
    let device := files config.serverCertificatePath
    let (made, saved) := devCtx installation.parse installation.write none
      surroundings.registration device
    let files := Function.update files config.serverCertificatePath saved
    match made with
    | .error fault => (⟨device.isNone, .ended fault⟩, files)
    | .ok context =>
        let (outcome, files) := init installation surroundings config context files
        (⟨device.isNone, outcome⟩, files)
  else (⟨false, .ended .fatal⟩, files)

/-- `main`. -/
def start (files : Files) : Report × Files :=
  match surroundings.host.elim (.ok []) (knownHosts addressPatterns) with
  | .error fault => (⟨false, .ended fault⟩, files)
  | .ok _ =>
      match loadSettings installation surroundings files with
      | (.error fault, files) => (⟨false, .ended fault⟩, files)
      | (.ok config, files) =>
          if surroundings.folder then serve installation surroundings config files
          else (⟨false, .ended .fatal⟩, files)

end Model

/-- One start after another, each with its report. -/
def starts (installation : Installation) :
    List Surroundings → Files → List (Surroundings × Report)
  | [], _ => []
  | surroundings :: later, files =>
      let (report, files) := start installation surroundings files
      (surroundings, report) :: starts installation later files

/-! ## The parts of a start -/

section Parts

variable {installation : Installation} {surroundings : Surroundings} {config : Config}
  {context : DeviceContext} {files : Files}

theorem greet_context {call : CertificateCall} {reached : DeviceContext}
    (isReached : (greet installation surroundings context call).context? = some reached) :
    reached = context := by
  unfold greet at isReached
  split at isReached
  · cases isReached
  · split at isReached
    · split at isReached
      · cases isReached
      · exact (Option.some.inj isReached).symm
    · cases isReached

/-- `init` writes the certificate and no other file, and works on the device context it
is given. -/
theorem init_spec :
    (∀ path, path ≠ config.clientCertificatePath →
        (init installation surroundings config context files).2 path = files path) ∧
      ∀ reached,
        (init installation surroundings config context files).1.context? = some reached →
          reached = context := by
  unfold init
  cases awaitEnabled installation.parse installation.vlogIsOn context.loginToken
      surroundings.activation with
  | error fault => exact ⟨fun _ _ => rfl, fun _ impossible => by cases impossible⟩
  | ok enabled =>
      cases enabled with
      | false => exact ⟨fun _ _ => rfl, fun _ same => (Option.some.inj same).symm⟩
      | true =>
          by_cases listens : surroundings.listens = true
          · rw [if_pos listens]
            exact ⟨fun _ apart => Function.update_of_ne apart _ _, fun _ => greet_context⟩
          · rw [if_neg listens]
            exact ⟨fun _ _ => rfl, fun _ impossible => by cases impossible⟩

end Parts

/-! ## The settings -/

section Settings

variable (installation : Installation) (config : Config)

/-- No start that gets past its settings uses another configuration. -/
def SettingsFor : Option Bytes → Prop
  | none => config = defaultConfig
  | some content =>
      ∀ loaded, loadConfig installation.yaml (some content) = .config loaded → loaded = config

/-- What yaml-cpp does with the settings that a start saves, or fails to save. -/
structure SavesDefault : Prop where
  readBack : installation.yaml.loadFile
    (installation.yaml.emit (yamlConfig defaultConfig) ++ utf8 "\n") =
      some (yamlConfig defaultConfig)
  empty : installation.yaml.loadFile [] = some .null

variable {installation config} {surroundings : Surroundings} {files : Files}

theorem loadConfig_empty (saves : SavesDefault installation) (loaded : Config) :
    loadConfig installation.yaml (some []) ≠ .config loaded := by
  rw [loadConfig, Option.bind_some, saves.empty]
  intro impossible
  cases impossible

variable (surroundings) in
theorem loadSettings_spec (saves : SavesDefault installation)
    (settings : SettingsFor installation config (files installation.configFile)) :
    (∀ loaded, (loadSettings installation surroundings files).1 = .ok loaded → loaded = config) ∧
      SettingsFor installation config
        ((loadSettings installation surroundings files).2 installation.configFile) ∧
      ∀ path, path ≠ installation.configFile →
        (loadSettings installation surroundings files).2 path = files path := by
  unfold loadSettings
  cases found : files installation.configFile with
  | some content =>
      rw [found] at settings
      refine ⟨?_, ?_, fun _ _ => rfl⟩
      · intro loaded same
        refine settings loaded ?_
        simp only at same
        cases call : loadConfig installation.yaml (some content) with
        | nullPointer =>
            rw [call] at same
            cases same
        | thrown =>
            rw [call] at same
            cases same
        | config value =>
            rw [call] at same
            cases same
            rfl
      · simp only [found]
        exact settings
  | none =>
      rw [found] at settings
      obtain rfl : config = defaultConfig := settings
      refine ⟨?_, ?_, fun path apart => Function.update_of_ne apart _ _⟩
      · intro loaded same
        simp only at same
        split at same
        · cases same
          rfl
        · cases same
      · simp only [Function.update_self]
        by_cases closed : surroundings.isOpen = false
        · rw [saveConfig, if_pos closed]
          rfl
        · rw [saveConfig, if_neg closed]
          by_cases failed : surroundings.fail = true
          · rw [if_pos failed]
            intro loaded same
            exact absurd same (loadConfig_empty saves loaded)
          · rw [if_neg failed]
            intro loaded same
            rw [loadConfig, Option.bind_some, saves.readBack] at same
            simp only [readConfig_of_holds (holds_yamlConfig defaultConfig)] at same
            exact (Loaded.config.inj same).symm

end Settings

/-! ## The device context -/

section Device

variable {installation : Installation} {reply : Option Bytes}

/-- The text that a registration saves. -/
def savedDevice (installation : Installation) (context : DeviceContext) : Bytes :=
  cString (installation.write (savedDocument context.deviceId context.loginToken))

/-- The reply registers the device with the id and the token of the context. -/
def Registers (installation : Installation) (reply : Option Bytes) (context : DeviceContext) :
    Prop :=
  ∃ text response, reply = some text ∧
    Registered installation.parse text context.deviceId context.loginToken response

/-- A configuration is made of an id and a token that are not empty. -/
theorem registered_of_configuration {text : Bytes} {response conf : JsonModel}
    (parsed : ofBuffer installation.parse (some text) = .ok response)
    (success : response.success = .ok true)
    (made : deviceConfigurationOfResponse response = .ok conf) :
    ∃ context : DeviceContext, Registered installation.parse text context.deviceId
      context.loginToken response := by
  unfold deviceConfigurationOfResponse at made
  cases clientId : response.clientId with
  | error fault =>
      rw [clientId] at made
      cases made
  | ok id =>
      rw [clientId] at made
      by_cases noId : id = []
      · subst noId
        cases made
      · cases clientToken : response.clientToken with
        | error fault =>
            rw [clientToken] at made
            simp only [bind, Except.bind, if_neg noId] at made
            cases made
        | ok token =>
            rw [clientToken] at made
            by_cases noToken : token = []
            · subst noToken
              simp only [bind, Except.bind, if_neg noId] at made
              cases made
            · exact ⟨⟨id, token⟩, parsed, success, clientId, clientToken, noId, noToken⟩

/-- A registration saves a file after a successful reply only. -/
theorem registerClient_spec (installation : Installation) (reply : Option Bytes) :
    (∃ fault, registerClient installation.parse installation.write reply none =
        (.error fault, none)) ∨
      ∃ context result, Registers installation reply context ∧
        registerClient installation.parse installation.write reply none =
          (result, some (savedDevice installation context)) := by
  cases reply with
  | none => exact .inl ⟨.fatal, rfl⟩
  | some text =>
      rw [registerClient]
      cases parsed : ofBuffer installation.parse (some text) with
      | error fault => exact .inl ⟨fault, rfl⟩
      | ok response =>
          simp only
          cases success : response.success with
          | error fault => exact .inl ⟨fault, rfl⟩
          | ok accepted =>
              cases accepted with
              | false => cases response.message <;> exact .inl ⟨_, rfl⟩
              | true =>
                  cases made : deviceConfigurationOfResponse response with
                  | error fault => exact .inl ⟨fault, rfl⟩
                  | ok conf =>
                      obtain ⟨context, registered⟩ :=
                        registered_of_configuration parsed success made
                      rw [registered.configuration] at made
                      cases made
                      refine .inr ⟨context, ?_⟩
                      simp only
                      cases response.enableUrl with
                      | error fault => exact ⟨_, ⟨text, response, rfl, registered⟩, rfl⟩
                      | ok url => exact ⟨_, ⟨text, response, rfl, registered⟩, rfl⟩

/-- Without a saved configuration there is no device context, and a file is saved only
after a successful registration. -/
theorem devCtx_of_none (installation : Installation) (reply : Option Bytes) :
    ∃ fault file, devCtx installation.parse installation.write none reply none =
        (.error fault, file) ∧
      (file = none ∨ ∃ context, Registers installation reply context ∧
        file = some (savedDevice installation context)) := by
  rw [devCtx]
  rcases registerClient_spec installation reply with
    ⟨fault, failed⟩ | ⟨context, result, registers, saved⟩
  · rw [failed]
    exact ⟨fault, none, rfl, .inl rfl⟩
  · rw [saved]
    cases result with
    | error fault => exact ⟨fault, _, rfl, .inr ⟨context, registers, rfl⟩⟩
    | ok done => exact ⟨.nullPointer, _, rfl, .inr ⟨context, registers, rfl⟩⟩

/-- What was saved is read back. -/
def ReadsBack (installation : Installation) (context : DeviceContext) : Prop :=
  installation.parse (savedDevice installation context) =
    some (savedDocument context.deviceId context.loginToken)

/-- With a saved configuration the device context is the one that was registered. -/
theorem devCtx_of_registered {context : DeviceContext} {first : Option Bytes}
    (registers : Registers installation first context)
    (readsBack : ReadsBack installation context) (reply : Option Bytes) :
    devCtx installation.parse installation.write none reply
        (some (savedDevice installation context)) =
      (.ok context, some (savedDevice installation context)) := by
  obtain ⟨text, response, rfl, registered⟩ := registers
  refine Prod.ext ?_ rfl
  exact devCtx_of_saved reply readsBack (cString_of_requireValue registered.clientId)
    (cString_of_requireValue registered.clientToken)

end Device

/-! ## One start -/

section Start

variable {installation : Installation} {config : Config}

/-- The files a start writes are different ones. -/
def Apart (installation : Installation) (config : Config) : Prop :=
  [installation.configFile, config.manageSockUrl, config.serverCertificatePath,
    config.clientCertificatePath].Nodup

variable {surroundings : Surroundings} {files : Files}

variable (surroundings) in
/-- A start that does not get past its settings and its folder, or goes on with the
configuration and files that agree with the old ones apart from the settings. -/
theorem start_cases (saves : SavesDefault installation)
    (settings : SettingsFor installation config (files installation.configFile)) :
    ∃ between : Files, SettingsFor installation config (between installation.configFile) ∧
      (∀ path, path ≠ installation.configFile → between path = files path) ∧
      ((∃ fault, start installation surroundings files = (⟨false, .ended fault⟩, between)) ∨
        start installation surroundings files =
          serve installation surroundings config between) := by
  unfold start
  cases surroundings.host.elim (.ok []) (knownHosts addressPatterns) with
  | error fault => exact ⟨files, settings, fun _ _ => rfl, .inl ⟨fault, rfl⟩⟩
  | ok hosts =>
      obtain ⟨same, kept, other⟩ := loadSettings_spec surroundings saves settings
      simp only
      cases loaded : loadSettings installation surroundings files with
      | mk result between =>
          rw [loaded] at same kept other
          refine ⟨between, kept, other, ?_⟩
          cases result with
          | error fault => exact .inl ⟨fault, rfl⟩
          | ok value =>
              obtain rfl := same value rfl
              cases surroundings.folder with
              | true => exact .inr rfl
              | false => exact .inl ⟨.fatal, rfl⟩

/-- `serve` leaves the settings alone. -/
theorem serve_settings (apart : Apart installation config) :
    (serve installation surroundings config files).2 installation.configFile =
      files installation.configFile := by
  simp only [Apart, List.nodup_cons, List.mem_cons, List.not_mem_nil, or_false, not_or] at apart
  obtain ⟨⟨sock, device, certificate⟩, -⟩ := apart
  have kept (saved : Option Bytes) :
      Function.update (Function.update files config.manageSockUrl none)
        config.serverCertificatePath saved installation.configFile =
          files installation.configFile :=
    (Function.update_of_ne device _ _).trans (Function.update_of_ne sock _ _)
  unfold serve
  split
  · simp only
    split
    · exact kept _
    · exact (init_spec.1 _ certificate).trans (kept _)
  · rfl

/-- Without a saved configuration of the device the program ends, after it may have saved
one. -/
theorem serve_unregistered (apart : Apart installation config)
    (unregistered : files config.serverCertificatePath = none) :
    (∃ fault, (serve installation surroundings config files).1.outcome = .ended fault) ∧
      ((serve installation surroundings config files).2 config.serverCertificatePath = none ∨
        (serve installation surroundings config files).1.registers = true ∧
        ∃ context, Registers installation surroundings.registration context ∧
          (serve installation surroundings config files).2 config.serverCertificatePath =
            some (savedDevice installation context)) := by
  simp only [Apart, List.nodup_cons, List.mem_cons, List.not_mem_nil, or_false, not_or] at apart
  obtain ⟨-, ⟨sock, -⟩, -⟩ := apart
  unfold serve
  split
  · obtain ⟨fault, file, made, saved⟩ := devCtx_of_none installation surroundings.registration
    simp only [Function.update_of_ne (Ne.symm sock), unregistered, made, Function.update_self,
      Option.isNone_none, true_and]
    exact ⟨⟨fault, rfl⟩, saved⟩
  · exact ⟨⟨.fatal, rfl⟩, .inl unregistered⟩

/-- With a saved configuration no start registers, and the device context is the one that
was registered. -/
theorem serve_registered {context : DeviceContext} {first : Option Bytes}
    (apart : Apart installation config) (registers : Registers installation first context)
    (readsBack : ReadsBack installation context)
    (registered : files config.serverCertificatePath = some (savedDevice installation context)) :
    (serve installation surroundings config files).1.registers = false ∧
      (serve installation surroundings config files).2 config.serverCertificatePath =
        some (savedDevice installation context) ∧
      ∀ reached,
        (serve installation surroundings config files).1.outcome.context? = some reached →
          reached = context := by
  simp only [Apart, List.nodup_cons, List.mem_cons, List.not_mem_nil, or_false, not_or] at apart
  obtain ⟨-, ⟨sock, -⟩, certificate, -⟩ := apart
  unfold serve
  split
  · have made := devCtx_of_registered registers readsBack surroundings.registration
    simp only [Function.update_of_ne (Ne.symm sock), registered, made, Option.isNone_some,
      true_and]
    refine ⟨?_, init_spec.2⟩
    rw [init_spec.1 _ certificate, Function.update_self]
  · exact ⟨rfl, registered, fun _ impossible => by cases impossible⟩

variable (surroundings) in
/-- A start keeps what is known of the settings. -/
theorem start_settings (saves : SavesDefault installation) (apart : Apart installation config)
    (settings : SettingsFor installation config (files installation.configFile)) :
    SettingsFor installation config
      ((start installation surroundings files).2 installation.configFile) := by
  obtain ⟨between, kept, -, ⟨fault, ended⟩ | served⟩ :=
    start_cases surroundings saves settings
  · rw [ended]
    exact kept
  · rw [served, serve_settings apart]
    exact kept

theorem device_ne_config (apart : Apart installation config) :
    config.serverCertificatePath ≠ installation.configFile := by
  simp only [Apart, List.nodup_cons, List.mem_cons, List.not_mem_nil, or_false, not_or] at apart
  exact Ne.symm apart.1.2.1

variable (surroundings) in
/-- A start of a device that is not registered ends, and may have registered it. -/
theorem start_unregistered (saves : SavesDefault installation) (apart : Apart installation config)
    (settings : SettingsFor installation config (files installation.configFile))
    (unregistered : files config.serverCertificatePath = none) :
    (∃ fault, (start installation surroundings files).1.outcome = .ended fault) ∧
      ((start installation surroundings files).2 config.serverCertificatePath = none ∨
        (start installation surroundings files).1.registers = true ∧
        ∃ context, Registers installation surroundings.registration context ∧
          (start installation surroundings files).2 config.serverCertificatePath =
            some (savedDevice installation context)) := by
  obtain ⟨between, -, other, ⟨fault, ended⟩ | served⟩ :=
    start_cases surroundings saves settings
  · rw [ended]
    exact ⟨⟨fault, rfl⟩, .inl ((other _ (device_ne_config apart)).trans unregistered)⟩
  · rw [served]
    exact serve_unregistered apart ((other _ (device_ne_config apart)).trans unregistered)

variable (surroundings) in
/-- A start of a registered device does not register it again, and gets no other device
context. -/
theorem start_registered {context : DeviceContext} {first : Option Bytes}
    (saves : SavesDefault installation) (apart : Apart installation config)
    (settings : SettingsFor installation config (files installation.configFile))
    (registers : Registers installation first context)
    (readsBack : ReadsBack installation context)
    (registered : files config.serverCertificatePath = some (savedDevice installation context)) :
    (start installation surroundings files).1.registers = false ∧
      (start installation surroundings files).2 config.serverCertificatePath =
        some (savedDevice installation context) ∧
      ∀ reached,
        (start installation surroundings files).1.outcome.context? = some reached →
          reached = context := by
  obtain ⟨between, -, other, ⟨fault, ended⟩ | served⟩ :=
    start_cases surroundings saves settings
  · rw [ended]
    exact ⟨rfl, (other _ (device_ne_config apart)).trans registered,
      fun _ impossible => by cases impossible⟩
  · rw [served]
    exact serve_registered apart registers readsBack
      ((other _ (device_ne_config apart)).trans registered)

end Start

/-! ## All starts -/

section Starts

variable {installation : Installation} {config : Config}

/-- What a start reports once the device is registered. -/
def Keeps (context : DeviceContext) (report : Report) : Prop :=
  report.registers = false ∧ ∀ reached, report.outcome.context? = some reached → reached = context

theorem starts_registered {context : DeviceContext} {first : Option Bytes}
    (saves : SavesDefault installation) (apart : Apart installation config)
    (registers : Registers installation first context)
    (readsBack : ReadsBack installation context) (later : List Surroundings) {files : Files}
    (settings : SettingsFor installation config (files installation.configFile))
    (registered : files config.serverCertificatePath = some (savedDevice installation context)) :
    ∀ entry ∈ starts installation later files, Keeps context entry.2 := by
  induction later generalizing files with
  | nil => exact List.forall_mem_nil _
  | cons surroundings later ih =>
      obtain ⟨silent, kept, same⟩ := start_registered surroundings saves apart settings registers
        readsBack registered
      rw [starts, List.forall_mem_cons]
      exact ⟨⟨silent, same⟩, ih (start_settings surroundings saves apart settings) kept⟩

/-- **The device keeps its identity.** However often the daemon is started, on a disk
without a configuration of the device and whatever the server replies: no start gets a
device context, or one of them registers the device with a successful reply. The starts
up to and including that one end without a device context, and no start after it
registers the device again or gets another device context. -/
theorem starts_keep_identity {surroundings : List Surroundings} {files : Files}
    (saves : SavesDefault installation) (apart : Apart installation config)
    (settings : SettingsFor installation config (files installation.configFile))
    (unregistered : files config.serverCertificatePath = none)
    (readsBack : ∀ one ∈ surroundings, ∀ context,
      Registers installation one.registration context → ReadsBack installation context) :
    (∀ entry ∈ starts installation surroundings files, entry.2.outcome.context? = none) ∨
      ∃ before one report after context,
        starts installation surroundings files = before ++ (one, report) :: after ∧
        (∀ entry ∈ before, entry.2.outcome.context? = none) ∧
        report.registers = true ∧ report.outcome.context? = none ∧
        Registers installation one.registration context ∧
        ∀ entry ∈ after, Keeps context entry.2 := by
  induction surroundings generalizing files with
  | nil => exact .inl (List.forall_mem_nil _)
  | cons one later ih =>
      obtain ⟨⟨fault, ended⟩, phase⟩ := start_unregistered one saves apart settings
        unregistered
      have kept := start_settings one saves apart settings
      have noContext : (start installation one files).1.outcome.context? = none := by
        rw [ended]
        rfl
      obtain ⟨readsBack_one, readsBack_later⟩ := List.forall_mem_cons.mp readsBack
      rw [starts]
      rcases phase with still | ⟨asked, context, registers, saved⟩
      · rcases ih kept still readsBack_later with
          none | ⟨before, first, report, after, context, split, early, rest⟩
        · exact .inl (List.forall_mem_cons.mpr ⟨noContext, none⟩)
        · refine .inr ⟨(one, _) :: before, first, report, after, context, ?_,
            List.forall_mem_cons.mpr ⟨noContext, early⟩, rest⟩
          simp only [split, List.cons_append]
      · exact .inr ⟨[], one, _, _, context, rfl, List.forall_mem_nil _, asked, noContext,
          registers, starts_registered saves apart registers (readsBack_one context registers)
            later kept saved⟩

end Starts

/-! ## Two starts -/

/-- The reply to a device that is enabled. -/
def enabledReply : Bytes := utf8 "\x7b\"success\":true,\"responseBody\":\x7b\x7d\x7d"

/-- A parser, on this text, on the replies to a registration and to a request for the
certificate, and on the saved configuration. -/
def parseReply (text : Bytes) : Option Json :=
  if text = enabledReply then
    some (.object [(utf8 "success", .bool true), (utf8 "responseBody", .object [])])
  else (parseSample text).or (parseCertificate text)

/-- The text of the default settings. -/
def defaultText : Bytes := utf8 "worker_thread: 5"

/-- yaml-cpp, on this text and on the empty one. -/
def defaultYaml : YamlCpp where
  loadFile text :=
    if text = defaultText ++ utf8 "\n" then some (yamlConfig defaultConfig)
    else if text = [] then some .null else none
  emit _ := defaultText
  asInteger := sampleYaml.asInteger
  asString := sampleYaml.asString
  asInteger_scalar := sampleYaml.asInteger_scalar
  asString_scalar := sampleYaml.asString_scalar

def sampleInstallation : Installation where
  parse := parseReply
  write _ := sampleFile
  yaml := defaultYaml
  loads := (· == utf8 "ABC")
  opens _ password := password == utf8 "7"
  vlogIsOn := false
  configFile := utf8 "/etc/p2p.yaml"

/-- Everything the daemon asks for is there. -/
def sampleSurroundings : Surroundings where
  host := none
  isOpen := true
  fail := false
  folder := true
  manages := true
  registration := some sampleReply
  activation := [some [], some enabledReply]
  listens := true
  certificates := arrivesAt 0
  peers := some enabledReply

/-- The response to the registration. -/
def sampleResponse : JsonModel where
  root := .object [(utf8 "success", .bool true), (utf8 "responseBody",
    .object [(utf8 "client_id", .string (utf8 "7")), (utf8 "login_token", .string (utf8 "k")),
      (utf8 "enable_url", .string (utf8 "u"))])]
  responseFlag := true

theorem registers_sample {context : DeviceContext}
    (registers : Registers sampleInstallation (some sampleReply) context) :
    context = ⟨utf8 "7", utf8 "k"⟩ := by
  obtain ⟨text, response, same, registered⟩ := registers
  cases same
  have parsed : ofBuffer parseReply (some sampleReply) = .ok sampleResponse := rfl
  obtain rfl := Except.ok.inj (parsed.symm.trans registered.parsed)
  have clientId : sampleResponse.clientId = .ok (utf8 "7") := rfl
  have clientToken : sampleResponse.clientToken = .ok (utf8 "k") := rfl
  have id := Except.ok.inj (clientId.symm.trans registered.clientId)
  have token := Except.ok.inj (clientToken.symm.trans registered.clientToken)
  rw [id, token]

/-- A disk on which the daemon has not been started yet. -/
def noFiles : Files := fun _ => none

/-- The first start registers the device, and the second one serves. -/
theorem starts_keep_identity_two :
    (starts sampleInstallation [sampleSurroundings, sampleSurroundings] noFiles).map
        (fun entry => (entry.2.registers, entry.2.outcome.context?)) =
      [(true, none), (false, some ⟨utf8 "7", utf8 "k"⟩)] ∧
    ∃ before one report after context,
      starts sampleInstallation [sampleSurroundings, sampleSurroundings] noFiles =
        before ++ (one, report) :: after ∧
      Registers sampleInstallation one.registration context ∧
      ∀ entry ∈ after, Keeps context entry.2 := by
  have contexts : (starts sampleInstallation [sampleSurroundings, sampleSurroundings]
      noFiles).map (fun entry => (entry.2.registers, entry.2.outcome.context?)) =
        [(true, none), (false, some ⟨utf8 "7", utf8 "k"⟩)] := rfl
  have saves : SavesDefault sampleInstallation := ⟨rfl, rfl⟩
  have apart : Apart sampleInstallation defaultConfig := by
    rw [Apart]
    decide
  have settings : SettingsFor sampleInstallation defaultConfig
      (noFiles sampleInstallation.configFile) := rfl
  have unregistered : noFiles defaultConfig.serverCertificatePath = none := rfl
  have readsBack : ∀ one ∈ [sampleSurroundings, sampleSurroundings], ∀ context,
      Registers sampleInstallation one.registration context →
        ReadsBack sampleInstallation context := by
    intro one member context registers
    obtain rfl : one = sampleSurroundings := by simpa using member
    obtain rfl := registers_sample registers
    rfl
  refine ⟨contexts, ?_⟩
  rcases starts_keep_identity saves apart settings unregistered readsBack with none | split
  · have second := contexts ▸ List.mem_cons_of_mem _ List.mem_cons_self
    obtain ⟨entry, member, same⟩ := List.mem_map.mp second
    cases (none entry member).symm.trans (Prod.mk.inj same).2
  · obtain ⟨before, one, report, after, context, split, -, -, -, registers, keeps⟩ := split
    exact ⟨before, one, report, after, context, split, registers, keeps⟩

end Startup

end P2PFileSync
