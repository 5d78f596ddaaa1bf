import PiqoServer.Server.Body
import PiqoServer.Core.Text

/-!
# The configuration file

The whole configuration record of `piqo-server/src/config.rs`, its validation, and `load`: the
TOML file, then the Markdown agents of the directory `agents` next to it. Parsing TOML, YAML and
URLs and checking header texts is done by other crates, which are parameters (`ConfigCrates`). The
ratios of the context are exact, and the path of an entry is its text.

## Main definitions

* `ServerConfig`: the record that is loaded; `ServerConfig.toPiqoConfig` is what runs read of it
* `ServerConfig.validate`: the checks a configuration has to pass
* `splitFrontMatter`, `loadMarkdownAgents`: the Markdown agents
* `ServerConfig.load`: a configuration from the files

## Main results

* `loadMarkdownAgents_eq_empty_iff`: a directory gives no agents exactly when it has no Markdown
  files
* `ServerConfig.load_eq_ok`: what has to succeed for `load` to succeed
-/

namespace Piqo

/-- What can be wrong with the configuration; errors of the operating system and of other crates
are their texts. -/
inductive ConfigError where
  | read (path source : String)
  | write (path source : String)
  | parse (source : String)
  | agentRead (path source : String)
  | invalidAgentDefinition (path reason : String)
  | edit (source : String)
  | providerNotFound (name : String)
  | providerAlreadyExists (name : String)
  | manualModelOverride (name : String)
  | conflictingCredentials (name : String)
  | invalidProtocol (provider source : String)
  | invalidProvider (reason : String)
  | invalidNativeTools (reason : String)
  | invalidMcp (reason : String)
  | invalidOrchestration (reason : String)
  | invalidResourceLimits (reason : String)
  | invalidStorage (reason : String)
  | readOnly
  | revisionExhausted
  deriving DecidableEq, Repr

/-! ## Texts -/

def isAsciiAlphanumeric (c : Char) : Bool :=
  ('a' ≤ c && c ≤ 'z') || ('A' ≤ c && c ≤ 'Z') || ('0' ≤ c && c ≤ '9')

def validAgentId (id : String) : Bool :=
  !id.isEmpty && id.toList.all fun c => isAsciiAlphanumeric c || c == '_' || c == '-'

/-- `Path::is_absolute`. -/
def isAbsolute (path : String) : Bool := path.toList.head? == some '/'

/-! ## The record -/

structure ProviderConfig where
  baseUrl : String
  protocol : String := "chat_completions"
  apiKey : Option String := none
  apiKeyEnv : Option String := none
  headers : SortedMap String String := ∅
  connectTimeoutSeconds : Nat := 10
  models : Option (List String) := none
  context : ProviderContextConfig := {}
  deriving DecidableEq

/-- Process-wide limits for untrusted input and locally managed work. -/
structure ResourceLimits where
  maxActiveRuns : Nat := 8
  maxPendingRuns : Nat := 256
  maxPendingRunsPerSession : Nat := 32
  maxSubprocesses : Nat := 16
  maxHttpBodyBytes : Nat := 4 * 1024 * 1024
  maxProviderRequestBytes : Nat := 4 * 1024 * 1024
  maxProviderResponseBytes : Nat := 32 * 1024 * 1024
  maxEventPayloadBytes : Nat := 1024 * 1024
  maxSseConnections : Nat := 256
  maxSseConnectionsPerSession : Nat := 16
  sseChannelCapacity : Nat := 1024
  maxDumpBytes : Nat := 512 * 1024 * 1024
  maxDumpFiles : Nat := 512
  deriving DecidableEq

structure NativeToolsConfig where
  maxReadBytes : Option Nat := none
  maxReadLines : Option Nat := none
  maxWriteBytes : Option Nat := none
  maxResultBytes : Option Nat := none
  maxResultLines : Option Nat := none
  bashTimeoutSeconds : Option Nat := none
  terminationGraceMillis : Option Nat := none
  shell : Option String := none
  deriving DecidableEq

/-- An MCP server launched as a child process over stdio. -/
structure McpServerConfig where
  command : String
  args : List String := []
  cwd : Option String := none
  enabled : Bool := true
  environment : SortedMap String String := ∅
  startupTimeoutSeconds : Nat := 10
  callTimeoutSeconds : Nat := 30
  maxResultBytes : Nat := 50 * 1024
  terminationGraceMillis : Nat := 1000
  maxRestartAttempts : Nat := 3
  deriving DecidableEq

structure StorageConfig where
  backupDirectory : Option String := none
  deriving DecidableEq

/-- The fields of the record that the TOML file gives. -/
structure TomlConfig where
  defaults : BodyLayer := {}
  providers : SortedMap String ProviderConfig := ∅
  models : SortedMap String BodyLayer := ∅
  agents : SortedMap String AgentConfigOverride := ∅
  variants : SortedMap String BodyLayer := ∅
  nativeTools : NativeToolsConfig := {}
  mcpServers : SortedMap String McpServerConfig := ∅
  context : ContextConfig := {}
  orchestration : OrchestrationConfig := {}
  resourceLimits : ResourceLimits := {}
  storage : StorageConfig := {}
  deriving DecidableEq

/-- The whole record; serde skips the Markdown agents. -/
structure ServerConfig extends TomlConfig where
  markdownAgents : SortedMap String AgentDefinition := ∅
  deriving DecidableEq

/-- What runs read of the record. -/
def ServerConfig.toPiqoConfig (config : ServerConfig) : PiqoConfig where
  defaults := config.defaults
  maxModelTurns := config.defaults.maxModelTurns
  models := config.models
  agents := config.agents
  variants := config.variants
  orchestration := config.orchestration
  markdownAgents := config.markdownAgents
  maxProviderRequestBytes := config.resourceLimits.maxProviderRequestBytes
  context := config.context
  providerContexts := config.providers.mapValues (·.context)

structure AgentFrontMatter where
  description : Option String := none
  provider : Option String := none
  model : Option String := none
  permissions : Option AgentPermissions := none
  body : Json := .null
  deriving DecidableEq

/-! ## Documents

A document of `toml_edit` keeps the formatting of keys and values with them. -/

structure TomlKey where
  name : String
  decor : String := ""
  deriving DecidableEq

inductive TomlValue where
  | string (s : String)
  | integer (i : Int)
  | array (items : List String)
  /-- Any other value, as it is written. -/
  | raw (text : String)
  deriving DecidableEq

inductive TomlItem where
  | value (v : TomlValue) (decor : String := "")
  | table (entries : List (TomlKey × TomlItem)) (decor : String := "")
  /-- An array of tables. -/
  | arrayOfTables (text : String)

/-- A table of a document; its keys stand in the order in which they are written. -/
abbrev TomlTable := List (TomlKey × TomlItem)

/-- The crates that the configuration is read, checked and written with. -/
structure ConfigCrates where
  /-- `toml::from_str`. -/
  fromToml : String → Except String TomlConfig
  /-- `DocumentMut::from_str`. -/
  parseDocument : String → Except String TomlTable
  /-- `DocumentMut::to_string`. -/
  documentText : TomlTable → String
  /-- `serde_yaml::from_str`. -/
  fromYaml : String → Except String AgentFrontMatter
  /-- `reqwest::Url::parse`, then `scheme`. -/
  urlScheme : String → Except String String
  /-- `HeaderName::from_bytes`. -/
  headerName : String → Except String Unit
  /-- `HeaderValue::from_str`. -/
  headerValue : String → Except String Unit

/-- `toml::from_str` to the whole record. -/
def ConfigCrates.fromStr (crates : ConfigCrates) (text : String) : Except ConfigError ServerConfig :=
  ((crates.fromToml text).mapError .parse).map fun config => { toTomlConfig := config }

/-! ## Validation -/

/-- Pass when the condition holds. -/
def require (condition : Bool) (e : ConfigError) : Except ConfigError Unit :=
  if condition then .ok () else .error e

def validateProviderName (name : String) : Except ConfigError Unit :=
  require (!name.isEmpty && decide (name.utf8ByteSize ≤ 128) &&
      name.toList.all fun c => isAsciiAlphanumeric c || c == '.' || c == '_' || c == '-')
    (.invalidProvider "provider name must be 1-128 URL-safe characters")

/-- Trim the names and drop repeated ones. -/
def normalizeModels : List String → List String → Except ConfigError (List String)
  | normalized, [] => .ok normalized
  | normalized, model :: models =>
    let model := trim model
    if model.isEmpty then .error (.invalidProvider "model names must not be empty")
    else normalizeModels (if model ∈ normalized then normalized else normalized ++ [model]) models

/-- `ProviderProtocol::from_str`. -/
def ProviderProtocol.parse : String → Except String ProviderProtocol
  | "chat_completions" | "chat-completion" | "chat" => .ok .chatCompletions
  | "responses" | "response" => .ok .responses
  | other => .error s!"unsupported provider protocol {other}"

namespace ProviderConfig

def validateHeaders (crates : ConfigCrates) :
    List (String × String) → Except ConfigError Unit
  | [] => .ok ()
  | (name, value) :: headers => do
    (crates.headerName name).mapError .invalidProvider
    (crates.headerValue value).mapError .invalidProvider
    validateHeaders crates headers

def validate (crates : ConfigCrates) (name : String) (provider : ProviderConfig) :
    Except ConfigError Unit := do
  require (!(provider.apiKey.isSome && provider.apiKeyEnv.isSome)) (.conflictingCredentials name)
  let scheme ← (crates.urlScheme provider.baseUrl).mapError .invalidProvider
  require (scheme == "http" || scheme == "https")
    (.invalidProvider "base_url must use http or https")
  require (provider.connectTimeoutSeconds != 0)
    (.invalidProvider "connect_timeout_seconds must be greater than zero")
  require (decide (provider.connectTimeoutSeconds ≤ 2 ^ 63 - 1))
    (.invalidProvider "connect_timeout_seconds is too large")
  let _ ← (ProviderProtocol.parse provider.protocol).mapError (.invalidProtocol name)
  validateHeaders crates provider.headers.entries
  let _ ← normalizeModels [] (provider.models.getD [])
  require ((provider.context.contextWindowPointer.toList ++
      provider.context.outputLimitPointer.toList).all fun p => p.toList.head? == some '/')
    (.invalidProvider s!"context metadata pointer for {name} must start with /")

end ProviderConfig

def NativeToolsConfig.validate (tools : NativeToolsConfig) : Except ConfigError Unit := do
  let positive (name : String) (value : Option Nat) := require (value != some 0)
    (.invalidNativeTools s!"{name} must be greater than zero")
  positive "max_read_bytes" tools.maxReadBytes
  positive "max_read_lines" tools.maxReadLines
  positive "max_write_bytes" tools.maxWriteBytes
  positive "max_result_bytes" tools.maxResultBytes
  positive "max_result_lines" tools.maxResultLines
  require (tools.bashTimeoutSeconds != some 0 && tools.terminationGraceMillis != some 0)
    (.invalidNativeTools "shell durations must be greater than zero")
  require (tools.shell.all isAbsolute) (.invalidNativeTools "shell must be an absolute path")

def ResourceLimits.validate (limits : ResourceLimits) : Except ConfigError Unit := do
  require ([limits.maxActiveRuns, limits.maxPendingRuns, limits.maxPendingRunsPerSession,
      limits.maxSubprocesses, limits.maxHttpBodyBytes, limits.maxProviderRequestBytes,
      limits.maxProviderResponseBytes, limits.maxEventPayloadBytes, limits.maxSseConnections,
      limits.maxSseConnectionsPerSession, limits.sseChannelCapacity, limits.maxDumpBytes,
      limits.maxDumpFiles].all (· != 0))
    (.invalidResourceLimits "all resource limits must be greater than zero")
  require (decide (limits.maxPendingRunsPerSession ≤ limits.maxPendingRuns))
    (.invalidResourceLimits "max_pending_runs_per_session cannot exceed max_pending_runs")
  require (decide (limits.maxSseConnectionsPerSession ≤ limits.maxSseConnections))
    (.invalidResourceLimits "max_sse_connections_per_session cannot exceed max_sse_connections")

def OrchestrationConfig.validate (limits : OrchestrationConfig) : Except ConfigError Unit :=
  require ([limits.maxDepth, limits.maxConcurrentPerTree, limits.maxConcurrentGlobal,
      limits.maxChildModelTurns, limits.maxChildDurationSeconds, limits.maxTreeDurationSeconds,
      limits.maxTreeTokens, limits.maxContextBytes, limits.maxContextMessageIds,
      limits.maxResultBytes].all (· != 0))
    (.invalidOrchestration "all limits must be greater than zero")

def McpServerConfig.validate (server : McpServerConfig) : Except String Unit :=
  if !(trim server.command).isEmpty && server.startupTimeoutSeconds != 0 &&
      server.callTimeoutSeconds != 0 && server.maxResultBytes != 0 &&
      server.terminationGraceMillis != 0 && server.cwd.all isAbsolute &&
      server.environment.entries.all fun e =>
        !e.1.isEmpty && !e.2.isEmpty && !e.1.toList.contains '=' && !e.2.toList.contains '='
  then .ok ()
  else .error "invalid MCP configuration"

namespace ServerConfig

def validateProviders (crates : ConfigCrates) :
    List (String × ProviderConfig) → Except ConfigError Unit
  | [] => .ok ()
  | (name, provider) :: providers => do
    validateProviderName name
    provider.validate crates name
    validateProviders crates providers

def validateMcpServers : List (String × McpServerConfig) → Except ConfigError Unit
  | [] => .ok ()
  | (id, server) :: servers => do
    require (validAgentId id)
      (.invalidMcp s!"server id {id} must use letters, digits, underscores, or hyphens")
    server.validate.mapError fun e => .invalidMcp s!"{id}: {e}"
    validateMcpServers servers

def validate (crates : ConfigCrates) (config : ServerConfig) : Except ConfigError Unit := do
  validateProviders crates config.providers.entries
  config.nativeTools.validate
  config.resourceLimits.validate
  require (config.storage.backupDirectory.all isAbsolute)
    (.invalidStorage "backup_directory must be an absolute path")
  config.orchestration.validate
  require config.toPiqoConfig.contextValid (.invalidProvider "invalid context configuration")
  validateMcpServers config.mcpServers.entries

/-- Validation does not look at the Markdown agents. -/
theorem validate_markdownAgents (crates : ConfigCrates) (config : ServerConfig)
    (agents : SortedMap String AgentDefinition) :
    validate crates { config with markdownAgents := agents } = validate crates config := rfl

end ServerConfig

/-! ## Markdown agents -/

/-- `split_inclusive('\n')`: the lines, each with its line feed. -/
def splitInclusive : List Char → List (List Char)
  | [] => []
  | c :: text =>
    if c = '\n' then [c] :: splitInclusive text
    else match splitInclusive text with
      | [] => [[c]]
      | line :: lines => (c :: line) :: lines

/-- Look for the line that ends the front matter, of which `before` has been read. -/
def closeFrontMatter (before : List Char) :
    List (List Char) → Except String (List Char × List Char)
  | [] => .error "front matter must end with a --- delimiter"
  | line :: lines =>
    if trimEndMatches (fun c => c == '\r' || c == '\n') line = ['-', '-', '-'] then
      .ok (before, lines.flatten)
    else closeFrontMatter (before ++ line) lines

/-- The front matter and the text after it. -/
def splitFrontMatter (text : String) : Except String (String × String) :=
  let opening := text.toList.takeWhile (· ≠ '\n')
  match text.toList.dropWhile (· ≠ '\n') with
  | [] => .error "front matter must start with a --- delimiter"
  | _ :: remaining =>
    if trimEndMatches (· == '\r') opening = ['-', '-', '-'] then
      (closeFrontMatter [] (splitInclusive remaining)).map fun parts =>
        (String.ofList parts.1, String.ofList parts.2)
    else .error "front matter must start with a --- delimiter"

/-- An entry of a directory. -/
structure DirectoryEntry where
  path : String
  /-- The extension of the name, if there is one and it is UTF-8. -/
  extension : Option String
  /-- The stem of the name, if it is UTF-8. -/
  stem : Option String
  /-- Whether the entry is a regular file, or why that is not known. -/
  isFile : Except String Bool
  /-- The content, or why it cannot be read as text. -/
  text : Except String String

namespace DirectoryEntry

/-- Whether the entry is taken for an agent: a regular file with the extension `md`. -/
def isMarkdown (entry : DirectoryEntry) : Bool :=
  entry.extension == some "md" && entry.isFile.toOption == some true

/-- The agent that a Markdown file defines. -/
def agent (crates : ConfigCrates) (entry : DirectoryEntry) : Except ConfigError AgentDefinition := do
  let id ← match entry.stem with
    | some id => .ok id
    | none => .error (.invalidAgentDefinition entry.path "file name must be valid UTF-8")
  require (validAgentId id) (.invalidAgentDefinition entry.path
    "file name must use letters, digits, underscores, or hyphens")
  let text ← entry.text.mapError (.agentRead entry.path)
  let parts ← (splitFrontMatter text).mapError (.invalidAgentDefinition entry.path)
  let frontMatter ← (crates.fromYaml parts.1).mapError (.invalidAgentDefinition entry.path)
  return {
    id
    description := frontMatter.description
    provider := frontMatter.provider
    model := frontMatter.model
    instructions := if (trim parts.2).isEmpty then none else some parts.2
    permissions := frontMatter.permissions.getD {}
    markdownBody := frontMatter.body }

end DirectoryEntry

/-- Add the agents of the entries to those there are. -/
def loadMarkdownAgents (crates : ConfigCrates) (directory : String) :
    SortedMap String AgentDefinition → List (Except String DirectoryEntry) →
      Except ConfigError (SortedMap String AgentDefinition)
  | agents, [] => .ok agents
  | _, .error source :: _ => .error (.agentRead directory source)
  | agents, .ok entry :: entries =>
    if entry.extension = some "md" then
      match entry.isFile with
      | .error source => .error (.agentRead entry.path source)
      | .ok false => loadMarkdownAgents crates directory agents entries
      | .ok true => do
        let agent ← entry.agent crates
        if agents.contains agent.id then
          .error (.invalidAgentDefinition entry.path s!"duplicate agent {agent.id}")
        else loadMarkdownAgents crates directory (agents.insert agent.id agent) entries
    else loadMarkdownAgents crates directory agents entries

/-- Agents are only added. -/
theorem loadMarkdownAgents_contains {crates : ConfigCrates} {directory : String}
    {agents agents' : SortedMap String AgentDefinition} {entries : List (Except String DirectoryEntry)}
    (h : loadMarkdownAgents crates directory agents entries = .ok agents') {id : String}
    (hid : agents.contains id = true) : agents'.contains id = true := by
  induction entries generalizing agents with
  | nil =>
    cases h
    exact hid
  | cons entry entries ih =>
    cases entry with
    | error source => cases h
    | ok entry =>
      simp only [loadMarkdownAgents] at h
      split at h
      · split at h
        · cases h
        · exact ih h hid
        · obtain ⟨agent, -, h⟩ := Except.bind_eq_ok.mp h
          obtain ⟨-, h⟩ := Except.ite_error_eq_ok.mp h
          refine ih h ?_
          rw [SortedMap.contains_iff] at hid ⊢
          obtain ⟨definition, hget⟩ := hid
          rw [SortedMap.get?_insert]
          split
          · exact ⟨agent, rfl⟩
          · exact ⟨definition, hget⟩
      · exact ih h hid

/-- **A directory gives no agents exactly when it has no Markdown files**, if it is accepted. -/
theorem loadMarkdownAgents_eq_empty_iff {crates : ConfigCrates} {directory : String}
    {agents : SortedMap String AgentDefinition} {entries : List (Except String DirectoryEntry)}
    (h : loadMarkdownAgents crates directory ∅ entries = .ok agents) :
    agents = ∅ ↔ ∀ entry, .ok entry ∈ entries → entry.isMarkdown = false := by
  induction entries with
  | nil =>
    cases h
    simp
  | cons entry entries ih =>
    cases entry with
    | error source => cases h
    | ok entry =>
      simp only [loadMarkdownAgents] at h
      simp only [List.mem_cons, forall_eq_or_imp, Except.ok.injEq]
      split at h
      · next hext =>
        split at h
        · cases h
        · next hfile =>
          have hno : entry.isMarkdown = false := by simp [DirectoryEntry.isMarkdown, hfile]
          rw [ih h]
          exact ⟨fun hall => And.intro hno hall, And.right⟩
        · next hfile =>
          -- the file defines an agent, which stays
          obtain ⟨agent, -, h⟩ := Except.bind_eq_ok.mp h
          obtain ⟨-, h⟩ := Except.ite_error_eq_ok.mp h
          have hadded : ((∅ : SortedMap String AgentDefinition).insert agent.id agent).contains
              agent.id = true := by
            rw [SortedMap.contains_iff]
            exact ⟨agent, SortedMap.get?_insert_self ..⟩
          have hstays := loadMarkdownAgents_contains h hadded
          have hyes : entry.isMarkdown = true := by
            simp [DirectoryEntry.isMarkdown, hfile, hext]
          refine iff_of_false ?_ ?_
          · rintro rfl
            cases hstays
          · intro hall
            rw [hall.1] at hyes
            cases hyes
      · next hext =>
        have hno : entry.isMarkdown = false := by simp [DirectoryEntry.isMarkdown, hext]
        rw [ih h]
        exact ⟨fun hall => And.intro hno hall, And.right⟩

/-! ## Files -/

/-- What stands under a name in the directory of the configuration file. -/
inductive FileNode where
  /-- A file with its content, or why it cannot be read as text. -/
  | file (text : Except String String)
  /-- A directory with its entries, or why it cannot be read. -/
  | directory (entries : Except String (List (Except String DirectoryEntry)))

namespace FileNode

/-- `fs::read_to_string`. -/
def readToString : FileNode → Except String String
  | .file text => text
  | .directory _ => .error "Is a directory (os error 21)"

/-- `fs::read_dir`. -/
def readDir : FileNode → Except String (List (Except String DirectoryEntry))
  | .file _ => .error "Not a directory (os error 20)"
  | .directory entries => entries

end FileNode

/-- The path of the configuration file. -/
structure ConfigPath where
  parent : String
  fileName : String
  deriving DecidableEq

namespace ConfigPath

/-- `Path::join` with the directory of the file, as text. -/
def join (path : ConfigPath) (name : String) : String :=
  if path.parent.isEmpty then name else path.parent ++ "/" ++ name

def display (path : ConfigPath) : String := path.join path.fileName

end ConfigPath

/-- The directory of the configuration file. -/
abbrev ConfigDirectory := SortedMap String FileNode

namespace ServerConfig

/-- The configuration as the TOML file gives it, or the default when there is no file. -/
def readFile (crates : ConfigCrates) (files : ConfigDirectory) (path : ConfigPath) :
    Except ConfigError ServerConfig :=
  match files.get? path.fileName with
  | some node => (node.readToString.mapError (.read path.display)).bind crates.fromStr
  | none => .ok {}

/-- The Markdown agents of the directory `agents`, next to those there are. -/
def readAgents (crates : ConfigCrates) (files : ConfigDirectory) (path : ConfigPath)
    (agents : SortedMap String AgentDefinition) :
    Except ConfigError (SortedMap String AgentDefinition) :=
  match files.get? "agents" with
  | some node => (node.readDir.mapError (.agentRead (path.join "agents"))).bind
      (loadMarkdownAgents crates (path.join "agents") agents)
  | none => .ok agents

/-- `PiqoConfig::load`. -/
def load (crates : ConfigCrates) (files : ConfigDirectory) (path : ConfigPath) :
    Except ConfigError ServerConfig :=
  (readFile crates files path).bind fun config =>
    (readAgents crates files path config.markdownAgents).bind fun agents =>
      let config := { config with markdownAgents := agents }
      (config.validate crates).map fun _ => config

/-- The file gives no Markdown agents. -/
theorem markdownAgents_of_readFile {crates : ConfigCrates} {files : ConfigDirectory}
    {path : ConfigPath} {config : ServerConfig} (h : readFile crates files path = .ok config) :
    config.markdownAgents = ∅ := by
  unfold readFile at h
  split at h
  · obtain ⟨text, -, h⟩ := Except.bind_eq_ok.mp h
    obtain ⟨toml, -, rfl⟩ := Except.map_eq_ok.mp h
    rfl
  · cases h
    rfl

/-- What has to succeed for `load` to succeed. -/
theorem load_eq_ok {crates : ConfigCrates} {files : ConfigDirectory} {path : ConfigPath}
    {config : ServerConfig} :
    load crates files path = .ok config ↔ ∃ file agents, readFile crates files path = .ok file ∧
      readAgents crates files path ∅ = .ok agents ∧ file.validate crates = .ok () ∧
      config = { file with markdownAgents := agents } := by
  rw [load, Except.bind_eq_ok]
  constructor
  · rintro ⟨file, hfile, h⟩
    obtain ⟨agents, hagents, h⟩ := Except.bind_eq_ok.mp h
    obtain ⟨_, hvalid, rfl⟩ := Except.map_eq_ok.mp h
    rw [markdownAgents_of_readFile hfile] at hagents
    exact ⟨file, agents, hfile, hagents, hvalid, rfl⟩
  · rintro ⟨file, agents, hfile, hagents, hvalid, rfl⟩
    refine ⟨file, hfile, ?_⟩
    rw [markdownAgents_of_readFile hfile, hagents]
    refine Except.map_eq_ok.mpr ⟨(), ?_, rfl⟩
    rw [validate_markdownAgents]
    exact hvalid

end ServerConfig

/-- The directory `agents` has no Markdown file. -/
def ConfigDirectory.NoMarkdown (files : ConfigDirectory) : Prop :=
  ∀ entries, files.get? "agents" = some (.directory (.ok entries)) →
    ∀ entry, .ok entry ∈ entries → entry.isMarkdown = false

/-- Accepted files give no Markdown agents exactly when there are no Markdown files. -/
theorem ServerConfig.readAgents_eq_empty_iff {crates : ConfigCrates} {files : ConfigDirectory}
    {path : ConfigPath} {agents : SortedMap String AgentDefinition}
    (h : readAgents crates files path ∅ = .ok agents) : agents = ∅ ↔ files.NoMarkdown := by
  unfold readAgents at h
  unfold ConfigDirectory.NoMarkdown
  split at h
  · next node hnode =>
    obtain ⟨entries, hentries, h⟩ := Except.bind_eq_ok.mp h
    rw [Except.mapError_eq_ok] at hentries
    cases node with
    | file text => cases hentries
    | directory contents =>
      cases hentries
      rw [loadMarkdownAgents_eq_empty_iff h, hnode]
      constructor
      · intro hall entries' heq
        cases heq
        exact hall
      · intro hall
        exact hall entries rfl
  · next hnode =>
    cases h
    rw [hnode]
    simp

end Piqo
