import P2PFileSync.Utils.AddressForms

/-!
# The configuration file

`save_config` writes the twelve values of a `Config` to a YAML document, and
`load_config` reads them back. A text that is not YAML gives a null pointer, but the
conversions stand outside the `try` block, so a missing key or a value of the wrong
kind throws; and the number of threads is read as an `int` and narrowed to 8 bits.

Main result: `loadConfig_correct_iff`. A saved configuration is always loaded.

What yaml-cpp does is a parameter: the parser, the writer and the two conversions,
with the law that a scalar is read as it was written.
-/

set_option autoImplicit false

namespace P2PFileSync

/-! ## YAML documents -/

/-- A node of a document. -/
inductive Yaml where
  | null
  | scalar (text : Bytes)
  | sequence (items : List Yaml)
  | map (entries : List (Bytes × Yaml))

namespace Yaml

/-- The entries of a node; a node that is no map has none. -/
def entries : Yaml → List (Bytes × Yaml)
  | map entries => entries
  | _ => []

/-- The node under a path of keys. -/
def find (node : Yaml) : List Bytes → Option Yaml
  | [] => some node
  | key :: path => (node.entries.lookup key).bind fun child => child.find path

/-- A list of entries with the value of a key set. -/
def setEntry (key : Bytes) (value : Yaml) : List (Bytes × Yaml) → List (Bytes × Yaml)
  | [] => [(key, value)]
  | entry :: entries =>
      if entry.1 = key then (key, value) :: entries else entry :: setEntry key value entries

/-- The assignment of a value to `node[key][key]…`. -/
def assign (value : Yaml) : List Bytes → Yaml → Yaml
  | [], _ => value
  | key :: path, node =>
      map (setEntry key (assign value path ((node.entries.lookup key).getD null)) node.entries)

end Yaml

/-- What yaml-cpp does. -/
structure YamlCpp where
  /-- `LoadFile` on the content of a file; `none` where it throws. -/
  loadFile : Bytes → Option Yaml
  /-- `operator<<` of a node. -/
  emit : Yaml → Bytes
  /-- The integer that a node stands for. -/
  asInteger : Yaml → Option ℤ
  /-- `as<std::string>`; `none` where it throws. -/
  asString : Yaml → Option Bytes
  asInteger_scalar : ∀ n : ℕ, asInteger (.scalar (decimalText n)) = some (n : ℤ)
  asString_scalar : ∀ text, asString (.scalar text) = some text

/-! ## The model -/

/-- The members of `Config`. -/
structure Config where
  workerThreadNum : UInt8
  packetCachedSize : UInt32
  managementServerUrl : Bytes
  p2pPort : UInt16
  p2pListenAddress : Bytes
  p2pListenInterface : Bytes
  mountPoint : Bytes
  configFolder : Bytes
  manageSockUrl : Bytes
  clientCertificatePath : Bytes
  serverCertificatePath : Bytes
  clientConfigurationPath : Bytes
  deriving DecidableEq

/-- The constructor with twelve arguments, in their order. -/
def Config.new (workerThreadNum : UInt8) (packetCachedSize : UInt32) (managementServerUrl : Bytes)
    (p2pPort : UInt16) (p2pListenAddress p2pListenInterface mountPoint configFolder manageSockFile
      clientConfigurationPath clientCertificatePath serverCertificatePath : Bytes) : Config where
  workerThreadNum := workerThreadNum
  packetCachedSize := packetCachedSize
  managementServerUrl := managementServerUrl
  p2pPort := p2pPort
  p2pListenAddress := p2pListenAddress
  p2pListenInterface := p2pListenInterface
  mountPoint := mountPoint
  configFolder := configFolder
  manageSockUrl := manageSockFile
  clientCertificatePath := clientCertificatePath
  serverCertificatePath := serverCertificatePath
  clientConfigurationPath := clientConfigurationPath

/-- A value of a configuration, as it is assigned to a node. -/
inductive ConfigValue where
  | integer (n : ℕ)
  | text (value : Bytes)

def ConfigValue.node : ConfigValue → Yaml
  | integer n => .scalar (decimalText n)
  | text value => .scalar value

/-- The assignments of `save_config`, in their order. -/
def Config.assignments (config : Config) : List (List Bytes × ConfigValue) := [
  ([utf8 "worker_thread"], .integer config.workerThreadNum.toNat),
  ([utf8 "packet_cache_size"], .integer config.packetCachedSize.toNat),
  ([utf8 "management_server_url"], .text config.managementServerUrl),
  ([utf8 "p2p", utf8 "p2p_port"], .integer config.p2pPort.toNat),
  ([utf8 "p2p", utf8 "p2p_listen_address"], .text config.p2pListenAddress),
  ([utf8 "p2p", utf8 "p2p_listen_interface"], .text config.p2pListenInterface),
  ([utf8 "sync", utf8 "manage_sock"], .text config.manageSockUrl),
  ([utf8 "sync", utf8 "mount_point"], .text config.mountPoint),
  ([utf8 "sync", utf8 "config_folder"], .text config.configFolder),
  ([utf8 "sync", utf8 "server_certificate_path"], .text config.serverCertificatePath),
  ([utf8 "sync", utf8 "client_certificate_path"], .text config.clientCertificatePath),
  ([utf8 "sync", utf8 "client_configuration_path"], .text config.clientConfigurationPath)]

/-- The node `yaml_config` of `save_config`. -/
def yamlConfig (config : Config) : Yaml :=
  config.assignments.foldl (fun node entry => Yaml.assign entry.2.node entry.1 node) .null

/-- What a call of `load_config` gives. -/
inductive Loaded where
  | nullPointer
  | config (value : Config)
  | thrown

section Model

variable (yaml : YamlCpp)

/-- `save_config`, given whether the file could be opened and whether its stream
failed: its answer, and the content of the file afterwards. -/
def saveConfig (config : Config) (isOpen fail : Bool) (file : Option Bytes) :
    Bool × Option Bytes :=
  if isOpen = false then (false, file)
  else if fail then (false, some [])
  else (true, some (yaml.emit (yamlConfig config) ++ utf8 "\n"))

/-- `as<T>` of an integer type with the given range. -/
def YamlCpp.asRange (low high : ℤ) (node : Option Yaml) : Option ℤ :=
  (node.bind yaml.asInteger).filter fun value => low ≤ value ∧ value < high

/-- `as<int>` -/
def YamlCpp.asInt (node : Option Yaml) : Option ℤ := yaml.asRange (-2147483648) 2147483648 node

/-- `as<uint32_t>` -/
def YamlCpp.asUInt32 (node : Option Yaml) : Option UInt32 :=
  (yaml.asRange 0 4294967296 node).map UInt32.ofInt

/-- `as<uint16_t>` -/
def YamlCpp.asUInt16 (node : Option Yaml) : Option UInt16 :=
  (yaml.asRange 0 65536 node).map UInt16.ofInt

/-- `as<std::string>` -/
def YamlCpp.asText (node : Option Yaml) : Option Bytes := node.bind yaml.asString

/-- The conversions of `load_config`; `none` where one of them throws. -/
def readConfig (config : Yaml) : Option Config := do
  return Config.new
    (UInt8.ofInt (← yaml.asInt (config.find [utf8 "worker_thread"])))
    (← yaml.asUInt32 (config.find [utf8 "packet_cache_size"]))
    (← yaml.asText (config.find [utf8 "management_server_url"]))
    (← yaml.asUInt16 (config.find [utf8 "p2p", utf8 "p2p_port"]))
    (← yaml.asText (config.find [utf8 "p2p", utf8 "p2p_listen_address"]))
    (← yaml.asText (config.find [utf8 "p2p", utf8 "p2p_listen_interface"]))
    (← yaml.asText (config.find [utf8 "sync", utf8 "mount_point"]))
    (← yaml.asText (config.find [utf8 "sync", utf8 "config_folder"]))
    (← yaml.asText (config.find [utf8 "sync", utf8 "manage_sock"]))
    (← yaml.asText (config.find [utf8 "sync", utf8 "client_configuration_path"]))
    (← yaml.asText (config.find [utf8 "sync", utf8 "client_certificate_path"]))
    (← yaml.asText (config.find [utf8 "sync", utf8 "server_certificate_path"]))

/-- `load_config`, given the content of the file. -/
def loadConfig (file : Option Bytes) : Loaded :=
  match file.bind yaml.loadFile with
  | none => .nullPointer
  | some document =>
      match readConfig yaml document with
      | none => .thrown
      | some config => .config config

end Model

/-! ## The property -/

section Property

variable (yaml : YamlCpp)

/-- The node holds the value. -/
def ConfigValue.HeldBy (node : Option Yaml) : ConfigValue → Prop
  | integer n => node.bind yaml.asInteger = some (n : ℤ)
  | text value => node.bind yaml.asString = some value

/-- The document holds the values of the configuration under the keys that
`save_config` assigns. -/
def Holds (document : Yaml) (config : Config) : Prop :=
  ∀ entry ∈ config.assignments, entry.2.HeldBy yaml (document.find entry.1)

/-- The call gives a null pointer, or a configuration whose values the document
holds. -/
def LoadsFaithfully (file : Option Bytes) : Prop :=
  match loadConfig yaml file with
  | .nullPointer => True
  | .config config => ∃ document, file.bind yaml.loadFile = some document ∧
      Holds yaml document config
  | .thrown => False

/-- The keys under which a text is kept. -/
def textKeys : List (List Bytes) := [
  [utf8 "management_server_url"], [utf8 "p2p", utf8 "p2p_listen_address"],
  [utf8 "p2p", utf8 "p2p_listen_interface"], [utf8 "sync", utf8 "manage_sock"],
  [utf8 "sync", utf8 "mount_point"], [utf8 "sync", utf8 "config_folder"],
  [utf8 "sync", utf8 "server_certificate_path"], [utf8 "sync", utf8 "client_certificate_path"],
  [utf8 "sync", utf8 "client_configuration_path"]]

/-- The document has an integer below a bound under the path. -/
def HoldsBelow (bound : ℕ) (document : Yaml) (path : List Bytes) : Prop :=
  ∃ n < bound, (document.find path).bind yaml.asInteger = some (n : ℤ)

/-- Documents with three integers that fit and nine texts. -/
structure Loadable (document : Yaml) : Prop where
  workerThread : HoldsBelow yaml 256 document [utf8 "worker_thread"]
  packetCacheSize : HoldsBelow yaml 4294967296 document [utf8 "packet_cache_size"]
  p2pPort : HoldsBelow yaml 65536 document [utf8 "p2p", utf8 "p2p_port"]
  texts : ∀ path ∈ textKeys, ((document.find path).bind yaml.asString).isSome = true

end Property

/-! ## Assignments -/

namespace Yaml

/-- Two paths that part before either of them ends. -/
def apart : List Bytes → List Bytes → Bool
  | key :: path, other :: rest => if key = other then apart path rest else true
  | _, _ => false

theorem lookup_setEntry (key other : Bytes) (value : Yaml) (entries : List (Bytes × Yaml)) :
    (setEntry key value entries).lookup other =
      if other = key then some value else entries.lookup other := by
  induction entries with
  | nil => exact lookup_entry_cons key other value []
  | cons entry entries ih =>
      obtain ⟨first, node⟩ := entry
      by_cases found : first = key
      · subst found
        rw [setEntry, if_pos rfl, lookup_entry_cons, lookup_entry_cons]
        by_cases same : other = first
        · rw [if_pos same, if_pos same]
        · rw [if_neg same, if_neg same, if_neg same]
      · rw [setEntry, if_neg found, lookup_entry_cons, lookup_entry_cons, ih]
        by_cases same : other = first
        · rw [if_pos same, if_pos same, if_neg (same ▸ found)]
        · rw [if_neg same, if_neg same]

/-- An assignment sets the node under its path. -/
theorem find_assign_self (value : Yaml) (path : List Bytes) (node : Yaml) :
    (assign value path node).find path = some value := by
  induction path generalizing node with
  | nil => rfl
  | cons key path ih =>
      rw [assign, find, entries, lookup_setEntry, if_pos rfl, Option.bind_some, ih]

/-- An assignment leaves the nodes under paths that part from its own. -/
theorem find_assign_of_apart (value : Yaml) {path other : List Bytes}
    (parts : apart path other = true) (node : Yaml) :
    (assign value path node).find other = node.find other := by
  induction path generalizing other node with
  | nil => cases parts
  | cons key path ih =>
      cases other with
      | nil => cases parts
      | cons otherKey rest =>
          rw [assign, find, find, entries, lookup_setEntry]
          by_cases same : otherKey = key
          · subst same
            rw [apart, if_pos rfl] at parts
            rw [if_pos rfl, Option.bind_some, ih parts]
            cases found : node.entries.lookup otherKey with
            | some child => rfl
            | none =>
                -- a path that goes on finds nothing in a null node
                cases rest with
                | nil => cases path <;> cases parts
                | cons next rest => rfl
          · rw [if_neg same]

/-- Assignments leave the node under a path that parts from all of theirs. -/
theorem find_foldl_assign_of_apart {α : Type} {path : α → List Bytes} {value : α → Yaml}
    {entries : List α} {other : List Bytes}
    (parts : ∀ entry ∈ entries, apart (path entry) other = true) (node : Yaml) :
    (entries.foldl (fun node entry => assign (value entry) (path entry) node) node).find other =
      node.find other := by
  induction entries generalizing node with
  | nil => rfl
  | cons first entries ih =>
      obtain ⟨parts_first, parts_later⟩ := List.forall_mem_cons.mp parts
      rw [List.foldl_cons, ih parts_later, find_assign_of_apart (value first) parts_first]

/-- Assignments under paths that part from each other all stay. -/
theorem find_foldl_assign {α : Type} {path : α → List Bytes} {value : α → Yaml} {entries : List α}
    (parts : entries.Pairwise fun entry later => apart (path later) (path entry) = true)
    (node : Yaml) :
    ∀ entry ∈ entries, (entries.foldl (fun node entry => assign (value entry) (path entry) node)
      node).find (path entry) = some (value entry) := by
  induction entries generalizing node with
  | nil =>
      intro entry empty
      cases empty
  | cons first entries ih =>
      obtain ⟨parts_first, parts_later⟩ := List.pairwise_cons.mp parts
      intro entry member
      rcases List.mem_cons.mp member with rfl | later
      · rw [List.foldl_cons, find_foldl_assign_of_apart parts_first, find_assign_self]
      · exact ih parts_later _ entry later

end Yaml

/-! ## What is loaded -/

section Loading

variable {yaml : YamlCpp} {document : Yaml} {config : Config}

/-- What is assigned to a node is held by it. -/
theorem ConfigValue.heldBy_node (value : ConfigValue) : value.HeldBy yaml (some value.node) := by
  cases value with
  | integer n => exact yaml.asInteger_scalar n
  | text value => exact yaml.asString_scalar value

/-- The keys of the assignments, whatever the values are. -/
def assignedKeys : List (List Bytes) := [
  [utf8 "worker_thread"], [utf8 "packet_cache_size"], [utf8 "management_server_url"],
  [utf8 "p2p", utf8 "p2p_port"], [utf8 "p2p", utf8 "p2p_listen_address"],
  [utf8 "p2p", utf8 "p2p_listen_interface"], [utf8 "sync", utf8 "manage_sock"],
  [utf8 "sync", utf8 "mount_point"], [utf8 "sync", utf8 "config_folder"],
  [utf8 "sync", utf8 "server_certificate_path"], [utf8 "sync", utf8 "client_certificate_path"],
  [utf8 "sync", utf8 "client_configuration_path"]]

theorem map_fst_assignments (config : Config) :
    config.assignments.map Prod.fst = assignedKeys := rfl

theorem assignedKeys_apart :
    assignedKeys.Pairwise fun path later => Yaml.apart later path = true := by
  decide

/-- Every assignment of `save_config` is found in the document. -/
theorem find_yamlConfig (config : Config) :
    ∀ entry ∈ config.assignments, (yamlConfig config).find entry.1 = some entry.2.node := by
  have parts : config.assignments.Pairwise fun entry later =>
      Yaml.apart later.1 entry.1 = true := by
    have keys := assignedKeys_apart
    rw [← map_fst_assignments config, List.pairwise_map] at keys
    exact keys
  exact Yaml.find_foldl_assign parts .null

/-- The document of a saved configuration holds its values. -/
theorem holds_yamlConfig (config : Config) : Holds yaml (yamlConfig config) config := by
  intro entry member
  rw [find_yamlConfig config entry member]
  exact entry.2.heldBy_node

theorem asRange_of_lt {low high : ℤ} {n : ℕ} {node : Option Yaml}
    (held : node.bind yaml.asInteger = some (n : ℤ)) (low_le : low ≤ n) (lt_high : n < high) :
    yaml.asRange low high node = some (n : ℤ) := by
  rw [YamlCpp.asRange, held, Option.filter_some, if_pos]
  exact decide_eq_true ⟨low_le, lt_high⟩

theorem ofInt_toNat_uint8 (n : UInt8) : UInt8.ofInt (n.toNat : ℤ) = n := by
  have small := n.toNat_lt
  apply UInt8.toNat_inj.mp
  rw [UInt8.ofInt, UInt8.toNat_ofNat']
  omega

theorem ofInt_toNat_uint16 (n : UInt16) : UInt16.ofInt (n.toNat : ℤ) = n := by
  have small := n.toNat_lt
  apply UInt16.toNat_inj.mp
  rw [UInt16.ofInt, UInt16.toNat_ofNat']
  omega

theorem ofInt_toNat_uint32 (n : UInt32) : UInt32.ofInt (n.toNat : ℤ) = n := by
  have small := n.toNat_lt
  apply UInt32.toNat_inj.mp
  rw [UInt32.ofInt, UInt32.toNat_ofNat']
  omega

theorem asInt_of_held {n : UInt8} {node : Option Yaml}
    (held : node.bind yaml.asInteger = some (n.toNat : ℤ)) :
    yaml.asInt node = some (n.toNat : ℤ) := by
  have small := n.toNat_lt
  exact asRange_of_lt held (by omega) (by omega)

theorem asUInt32_of_held {n : UInt32} {node : Option Yaml}
    (held : node.bind yaml.asInteger = some (n.toNat : ℤ)) : yaml.asUInt32 node = some n := by
  have small := n.toNat_lt
  rw [YamlCpp.asUInt32, asRange_of_lt held (by omega) (by omega), Option.map_some,
    ofInt_toNat_uint32]

theorem asUInt16_of_held {n : UInt16} {node : Option Yaml}
    (held : node.bind yaml.asInteger = some (n.toNat : ℤ)) : yaml.asUInt16 node = some n := by
  have small := n.toNat_lt
  rw [YamlCpp.asUInt16, asRange_of_lt held (by omega) (by omega), Option.map_some,
    ofInt_toNat_uint16]

/-- The values that a document holds are the ones that are read. -/
theorem readConfig_of_holds (holds : Holds yaml document config) :
    readConfig yaml document = some config := by
  simp only [Holds, Config.assignments, List.forall_mem_cons, ConfigValue.HeldBy] at holds
  obtain ⟨workerThread, packetCacheSize, url, port, address, interface, sock, mount, folder, server,
    certificate, configuration, _⟩ := holds
  simp only [readConfig, asInt_of_held workerThread, asUInt32_of_held packetCacheSize,
    asUInt16_of_held port, YamlCpp.asText, url, address, interface, sock, mount, folder, server,
    certificate, configuration, ofInt_toNat_uint8, Option.pure_def, Option.bind_eq_bind,
    Option.bind_some, Config.new]

/-- A document can be loaded as it is when it holds the values of some
configuration. -/
theorem loadable_iff : Loadable yaml document ↔ ∃ config, Holds yaml document config := by
  constructor
  · intro loadable
    obtain ⟨worker, worker_lt, workerThread⟩ := loadable.workerThread
    obtain ⟨size, size_lt, packetCacheSize⟩ := loadable.packetCacheSize
    obtain ⟨port, port_lt, p2pPort⟩ := loadable.p2pPort
    have texts := loadable.texts
    simp only [textKeys, List.forall_mem_cons, Option.isSome_iff_exists] at texts
    obtain ⟨⟨url, isUrl⟩, ⟨address, isAddress⟩, ⟨interface, isInterface⟩, ⟨sock, isSock⟩,
      ⟨mount, isMount⟩, ⟨folder, isFolder⟩, ⟨server, isServer⟩, ⟨certificate, isCertificate⟩,
      ⟨configuration, isConfiguration⟩, _⟩ := texts
    refine ⟨⟨UInt8.ofNat worker, UInt32.ofNat size, url, UInt16.ofNat port, address, interface,
      mount, folder, sock, certificate, server, configuration⟩, ?_⟩
    simp only [Holds, Config.assignments, List.forall_mem_cons, ConfigValue.HeldBy,
      UInt8.toNat_ofNat', UInt16.toNat_ofNat', UInt32.toNat_ofNat', Nat.mod_eq_of_lt worker_lt,
      Nat.mod_eq_of_lt size_lt, Nat.mod_eq_of_lt port_lt]
    refine ⟨workerThread, packetCacheSize, isUrl, p2pPort, isAddress, isInterface, isSock, isMount,
      isFolder, isServer, isCertificate, isConfiguration, ?_⟩
    intro entry empty
    cases empty
  · rintro ⟨config, holds⟩
    simp only [Holds, Config.assignments, List.forall_mem_cons, ConfigValue.HeldBy] at holds
    obtain ⟨workerThread, packetCacheSize, url, port, address, interface, sock, mount, folder,
      server, certificate, configuration, _⟩ := holds
    refine ⟨⟨_, config.workerThreadNum.toNat_lt, workerThread⟩,
      ⟨_, config.packetCachedSize.toNat_lt, packetCacheSize⟩,
      ⟨_, config.p2pPort.toNat_lt, port⟩, ?_⟩
    simp only [textKeys, List.forall_mem_cons, url, address, interface, sock, mount, folder, server,
      certificate, configuration, Option.isSome_some, true_and]
    intro path empty
    cases empty

/-- A file that is YAML is loaded as it is when the document can be. -/
theorem loadsFaithfully_iff {file : Option Bytes}
    (parsed : file.bind yaml.loadFile = some document) :
    LoadsFaithfully yaml file ↔ Loadable yaml document := by
  have call : loadConfig yaml file =
      match readConfig yaml document with
      | none => .thrown
      | some config => .config config := by
    rw [loadConfig, parsed]
  cases read : readConfig yaml document with
  | none =>
      rw [read] at call
      rw [LoadsFaithfully, call]
      refine iff_of_false id ?_
      intro loadable
      obtain ⟨config, holds⟩ := loadable_iff.mp loadable
      rw [readConfig_of_holds holds] at read
      cases read
  | some config =>
      rw [read] at call
      rw [LoadsFaithfully, call]
      simp only [parsed, Option.some.injEq, exists_eq_left']
      constructor
      · intro holds
        exact loadable_iff.mpr ⟨config, holds⟩
      · intro loadable
        obtain ⟨held, holds⟩ := loadable_iff.mp loadable
        rw [readConfig_of_holds holds] at read
        cases read
        exact holds

/-- **When the configuration is loaded as it is.** The call gives a null pointer or
the values of the document exactly if the file is no YAML or holds all twelve values
in the width of their members; and a saved configuration is loaded again. -/
theorem loadConfig_correct_iff (yaml : YamlCpp) :
    (∀ file, LoadsFaithfully yaml file ↔
        file.bind yaml.loadFile = none ∨
          ∃ document, file.bind yaml.loadFile = some document ∧ Loadable yaml document) ∧
      ∀ config before,
        yaml.loadFile (yaml.emit (yamlConfig config) ++ utf8 "\n") = some (yamlConfig config) →
        loadConfig yaml (saveConfig yaml config true false before).2 = .config config := by
  constructor
  · intro file
    cases parsed : file.bind yaml.loadFile with
    | none =>
        refine iff_of_true ?_ (.inl rfl)
        rw [LoadsFaithfully, loadConfig, parsed]
        trivial
    | some document =>
        rw [loadsFaithfully_iff parsed]
        simp only [Option.some.injEq, exists_eq_left', reduceCtorEq, false_or]
  · intro config before readBack
    have saved : (saveConfig yaml config true false before).2 =
        some (yaml.emit (yamlConfig config) ++ utf8 "\n") := rfl
    rw [loadConfig, saved, Option.bind_some, readBack]
    simp only [readConfig_of_holds (holds_yamlConfig config)]

end Loading

/-! ## Files -/

def sampleConfig : Config :=
  .new 5 100 (utf8 "http://10.10.0.118") 3324 (utf8 "0.0.0.0") (utf8 "eth0") (utf8 "/mnt")
    (utf8 "/tmp") (utf8 "/tmp/sync.sock") (utf8 "/tmp/device.cfg") (utf8 "/tmp/device.p12")
    (utf8 "/tmp/root.crt")

/-- The text of a saved configuration behind the first line. -/
def sampleRest : Bytes :=
  utf8 "packet_cache_size: 100\nmanagement_server_url: http://10.10.0.118\n" ++
  utf8 "p2p:\n  p2p_port: 3324\n  p2p_listen_address: 0.0.0.0\n  p2p_listen_interface: eth0\n" ++
  utf8 "sync:\n  manage_sock: /tmp/sync.sock\n  mount_point: /mnt\n  config_folder: /tmp\n" ++
  utf8 "  server_certificate_path: /tmp/root.crt\n  client_certificate_path: /tmp/device.p12\n" ++
  utf8 "  client_configuration_path: /tmp/device.cfg"

def sampleText : Bytes := utf8 "worker_thread: 5\n" ++ sampleRest

/-- The same with more threads than 8 bits can count. -/
def wideText : Bytes := utf8 "worker_thread: 300\n" ++ sampleRest

def wideDocument : Yaml :=
  Yaml.assign (.scalar (utf8 "300")) [utf8 "worker_thread"] (yamlConfig sampleConfig)

/-- A parser, on these texts and on that of an empty map. -/
def loadSample (text : Bytes) : Option Yaml :=
  if text = sampleText ++ utf8 "\n" then some (yamlConfig sampleConfig)
  else if text = wideText then some wideDocument
  else if text = utf8 "\x7b\x7d" then some (.map [])
  else none

/-- yaml-cpp, on these texts. -/
def sampleYaml : YamlCpp where
  loadFile := loadSample
  emit _ := sampleText
  asInteger
    | .scalar text => if text ≠ [] ∧ text.all isDigit then some (decimalValue text : ℤ) else none
    | _ => none
  asString
    | .scalar text => some text
    | _ => none
  asInteger_scalar n := by
    have digits : (decimalText n).all isDigit = true :=
      List.all_eq_true.mpr isDigit_of_mem_decimalText
    simp only [decimalText_ne_nil, digits, decimalValue_decimalText, ne_eq, not_false_eq_true,
      and_self, if_true]
  asString_scalar _ := rfl

theorem loadSample_saved :
    loadSample (sampleText ++ utf8 "\n") = some (yamlConfig sampleConfig) := by
  rw [loadSample, if_pos rfl]

theorem loadSample_noYaml : loadSample (utf8 "[") = none := by
  rw [loadSample, if_neg (by decide +kernel), if_neg (by decide +kernel),
    if_neg (by decide +kernel)]

theorem loadSample_emptyMap : loadSample (utf8 "\x7b\x7d") = some (.map []) := by
  rw [loadSample, if_neg (by decide +kernel), if_neg (by decide +kernel), if_pos rfl]

theorem loadSample_wideText : loadSample wideText = some wideDocument := by
  rw [loadSample, if_neg (by decide +kernel), if_pos rfl]

theorem sampleYaml_loadFile : sampleYaml.loadFile = loadSample := rfl

theorem sampleYaml_emit (node : Yaml) : sampleYaml.emit node = sampleText := rfl

/-- A text that is no YAML, and a saved configuration. -/
theorem loadConfig_saved :
    LoadsFaithfully sampleYaml (some (utf8 "[")) ∧
      loadConfig sampleYaml (saveConfig sampleYaml sampleConfig true false none).2 =
        .config sampleConfig := by
  obtain ⟨faithful, loaded⟩ := loadConfig_correct_iff sampleYaml
  constructor
  · refine (faithful _).mpr (.inl ?_)
    rw [Option.bind_some, sampleYaml_loadFile, loadSample_noYaml]
  · refine loaded sampleConfig none ?_
    rw [sampleYaml_loadFile, sampleYaml_emit, loadSample_saved]

/-- A document without the keys, and one with too many threads. -/
theorem loadConfig_not_faithful :
    ¬ LoadsFaithfully sampleYaml (some (utf8 "\x7b\x7d")) ∧
      ¬ LoadsFaithfully sampleYaml (some wideText) := by
  constructor
  · rw [loadsFaithfully_iff (by rw [Option.bind_some, sampleYaml_loadFile, loadSample_emptyMap])]
    rintro ⟨⟨n, _, impossible⟩, _⟩
    cases impossible
  · rw [loadsFaithfully_iff (by rw [Option.bind_some, sampleYaml_loadFile, loadSample_wideText])]
    rintro ⟨⟨n, small, held⟩, _⟩
    rw [wideDocument, Yaml.find_assign_self, Option.bind_some] at held
    have read : sampleYaml.asInteger (.scalar (utf8 "300")) = some 300 := by decide
    rw [read, Option.some.injEq] at held
    omega

end P2PFileSync
