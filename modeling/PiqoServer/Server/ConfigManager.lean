import PiqoServer.Server.ConfigFile

/-!
# The configuration manager

The provider calls of the API change the TOML file and replace the snapshot in memory
(`ConfigManager` in `piqo-server/src/config.rs`). A call edits the document, parses and validates
its text, writes the file under another name and renames it, and only then replaces the snapshot.
It does so under a mutex, so calls follow each other. Model discovery, which a call starts when the
snapshot stands, and the answer of a call are left out, but not the errors of discovery.

## Main definitions

* `writeAtomic`: the write with the step that fails, if one does
* `ConfigManager`: the files and the snapshot; `mutate`, `call`, `reload`, `run`
* `ConfigManager.Fresh`: the snapshot is what `load` gives

## Main results

* `ConfigManager.mutate_eq_ok`: what a successful mutation leaves behind
* `ConfigManager.fresh_iff`: after a successful call the snapshot is fresh exactly when there are
  no Markdown agents, which a mutation does not read
* `ConfigManager.mutate_unchanged_iff`: when a mutation that fails changes nothing
-/

namespace Piqo

/-! ## Editing documents -/

namespace TomlTable

def get? (table : TomlTable) (key : String) : Option TomlItem :=
  (table.find? fun e => e.1.name = key).map (·.2)

/-- Replace the item under a key, which stays where it is, or add it at the end. -/
def set (table : TomlTable) (key : String) (item : TomlItem) : TomlTable :=
  if (get? table key).isSome then
    table.map fun e => if e.1.name = key then (e.1, item) else e
  else table ++ [({ name := key }, item)]

def remove (table : TomlTable) (key : String) : TomlTable :=
  table.filter fun e => e.1.name ≠ key

def setString (table : TomlTable) (key text : String) : TomlTable :=
  set table key (.value (.string text))

end TomlTable

/-- Edit the table `providers`, which is created when there is none. -/
def editProviders (edit : TomlTable → Except ConfigError TomlTable) (document : TomlTable) :
    Except ConfigError TomlTable :=
  let document := if (TomlTable.get? document "providers").isSome then document
    else TomlTable.set document "providers" (.table [])
  match TomlTable.get? document "providers" with
  | some (.table providers decor) => do
    let providers ← edit providers
    return TomlTable.set document "providers" (.table providers decor)
  | _ => .error (.invalidProvider "providers must be a TOML table")

/-- Edit the table of a provider. -/
def editProvider (name : String) (edit : TomlTable → Except ConfigError TomlTable) :
    TomlTable → Except ConfigError TomlTable :=
  editProviders fun providers =>
    match TomlTable.get? providers name with
    | some (.table provider decor) => do
      let provider ← edit provider
      return TomlTable.set providers name (.table provider decor)
    | _ => .error (.providerNotFound name)

def headersTable (headers : SortedMap String String) : TomlTable :=
  headers.entries.foldl (fun table e => TomlTable.setString table e.1 e.2) []

def providerTable (provider : ProviderConfig) : TomlTable :=
  let table := TomlTable.setString [] "base_url" provider.baseUrl
  let table := TomlTable.setString table "protocol" provider.protocol
  let table := TomlTable.set table "connect_timeout_seconds"
    (.value (.integer provider.connectTimeoutSeconds))
  let table := match provider.apiKey with
    | some apiKey => TomlTable.setString table "api_key" apiKey
    | none => table
  let table := match provider.apiKeyEnv with
    | some variableName => TomlTable.setString table "api_key_env" variableName
    | none => table
  let table := if provider.headers = ∅ then table
    else TomlTable.set table "headers" (.table (headersTable provider.headers))
  match provider.models with
  | some models => TomlTable.set table "models" (.value (.array models))
  | none => table

/-! ## Requests -/

inductive ProviderCredentialInput where
  | none
  | apiKey (value : String)
  | environment (variableName : String)
  deriving DecidableEq, Repr

structure CreateProviderRequest where
  name : String
  baseUrl : String
  protocol : Option String := none
  credentials : Option ProviderCredentialInput := none
  headers : Option (SortedMap String String) := none
  connectTimeoutSeconds : Option Nat := none

structure UpdateProviderRequest where
  baseUrl : Option String := none
  protocol : Option String := none
  credentials : Option ProviderCredentialInput := none
  headers : Option (SortedMap String String) := none
  connectTimeoutSeconds : Option Nat := none

def credentialValues (credential : Option ProviderCredentialInput) :
    Except ConfigError (Option String × Option String) :=
  match credential.getD .none with
  | .none => .ok (none, none)
  | .apiKey value =>
    if value.isEmpty then .error (.invalidProvider "credential value must not be empty")
    else .ok (some value, none)
  | .environment variableName =>
    if (trim variableName).isEmpty then .error (.invalidProvider "credential value must not be empty")
    else .ok (none, some (trim variableName))

def setCredentials (credential : ProviderCredentialInput) (table : TomlTable) :
    Except ConfigError TomlTable := do
  let (apiKey, apiKeyEnv) ← credentialValues (some credential)
  let table := TomlTable.remove (TomlTable.remove table "api_key") "api_key_env"
  let table := match apiKey with
    | some apiKey => TomlTable.setString table "api_key" apiKey
    | none => table
  return match apiKeyEnv with
    | some variableName => TomlTable.setString table "api_key_env" variableName
    | none => table

/-- `ProviderConfig::from_create`. -/
def ProviderConfig.fromCreate (crates : ConfigCrates) (request : CreateProviderRequest) :
    Except ConfigError ProviderConfig := do
  let (apiKey, apiKeyEnv) ← credentialValues request.credentials
  let config : ProviderConfig := {
    baseUrl := trim request.baseUrl
    protocol := request.protocol.getD "chat_completions"
    apiKey, apiKeyEnv
    headers := request.headers.getD ∅
    connectTimeoutSeconds := request.connectTimeoutSeconds.getD 10 }
  config.validate crates request.name
  return config

/-- The edit that `update_provider` makes to the table of the provider. -/
def UpdateProviderRequest.edit (request : UpdateProviderRequest) (table : TomlTable) :
    Except ConfigError TomlTable := do
  let table := match request.baseUrl with
    | some baseUrl => TomlTable.setString table "base_url" (trim baseUrl)
    | none => table
  let table := match request.protocol with
    | some protocol => TomlTable.setString table "protocol" protocol
    | none => table
  let table ← match request.credentials with
    | some credentials => setCredentials credentials table
    | none => .ok table
  let table := match request.headers with
    | some headers => TomlTable.set table "headers" (.table (headersTable headers))
    | none => table
  match request.connectTimeoutSeconds with
  | some timeout =>
    if timeout ≤ 2 ^ 63 - 1 then
      .ok (TomlTable.set table "connect_timeout_seconds" (.value (.integer timeout)))
    else .error (.invalidProvider "connect timeout is too large")
  | none => .ok table

/-! ## Writing -/

/-- The steps of `write_atomic`. -/
inductive WriteStep where
  | createDirectory | openTemporary | setPermissions | writeText | syncTemporary | renameTemporary
  | syncDirectory
  deriving DecidableEq, Repr

/-- A step that fails, with the error of the operating system. -/
structure WriteFault where
  step : WriteStep
  source : String
  deriving DecidableEq, Repr

/-- Write the file under another name and rename it. The temporary file of a write that fails is
removed. -/
def writeAtomic (path : ConfigPath) (text : String) (fault : Option WriteFault)
    (files : ConfigDirectory) : Except ConfigError Unit × ConfigDirectory :=
  let written := files.insert path.fileName (.file (.ok text))
  match fault with
  | none => (.ok (), written)
  | some ⟨.createDirectory, source⟩ => (.error (.write path.parent source), files)
  -- the file has been renamed by then
  | some ⟨.syncDirectory, source⟩ => (.error (.write path.display source), written)
  | some ⟨_, source⟩ => (.error (.write path.display source), files)

/-! ## The manager -/

/-- The manager with the directory of its file. -/
structure ConfigManager where
  path : Option ConfigPath
  files : ConfigDirectory
  /-- The revision of the snapshot, a `u64`. -/
  revision : Nat := 1
  /-- The configuration of the snapshot. -/
  config : ServerConfig

/-- The provider calls of the API. -/
inductive ProviderCall where
  | create (request : CreateProviderRequest)
  | update (name : String) (request : UpdateProviderRequest)
  | delete (name : String)
  | replaceModels (name : String) (models : List String)
  | clearModels (name : String)

namespace ConfigManager

def readDocument (crates : ConfigCrates) (path : ConfigPath) (files : ConfigDirectory) :
    Except ConfigError TomlTable :=
  match files.get? path.fileName with
  | none => .ok []
  | some node => (node.readToString.mapError (.read path.display)).bind fun text =>
      (crates.parseDocument text).mapError .edit

/-- The new text of the file with the configuration in it. -/
def edited (crates : ConfigCrates) (path : ConfigPath) (files : ConfigDirectory)
    (operation : TomlTable → Except ConfigError TomlTable) :
    Except ConfigError (String × ServerConfig) :=
  (readDocument crates path files).bind fun document =>
    (operation document).bind fun document =>
      let text := crates.documentText document
      (crates.fromStr text).bind fun config =>
        (config.validate crates).map fun _ => (text, config)

def mutate (crates : ConfigCrates) (fault : Option WriteFault)
    (operation : TomlTable → Except ConfigError TomlTable) (m : ConfigManager) :
    Except ConfigError Unit × ConfigManager :=
  match m.path with
  | none => (.error .readOnly, m)
  | some path =>
    match edited crates path m.files operation with
    | .error e => (.error e, m)
    | .ok (text, config) =>
      match writeAtomic path text fault m.files with
      | (.error e, files) => (.error e, { m with files })
      | (.ok (), files) =>
        if m.revision < 2 ^ 64 - 1 then
          (.ok (), { m with files, revision := m.revision + 1, config })
        else (.error .revisionExhausted, { m with files })

/-- The errors of `discover_provider`; a discovery that fails is an entry of the cache. -/
def discoverProvider (name : String) (config : ServerConfig) : Except ConfigError Unit :=
  match config.providers.get? name with
  | none => .error (.providerNotFound name)
  | some provider => if provider.models.isSome then .error (.manualModelOverride name) else .ok ()

/-- The error of `provider` and of `models`. -/
def requireProvider (name : String) (config : ServerConfig) : Except ConfigError Unit :=
  if config.providers.contains name then .ok () else .error (.providerNotFound name)

/-- Go on with the new snapshot when a mutation has succeeded. -/
def andThen (next : ServerConfig → Except ConfigError Unit) :
    Except ConfigError Unit × ConfigManager → Except ConfigError Unit × ConfigManager
  | (.ok (), m) => (next m.config, m)
  | (.error e, m) => (.error e, m)

def call (crates : ConfigCrates) (fault : Option WriteFault) (m : ConfigManager) :
    ProviderCall → Except ConfigError Unit × ConfigManager
  | .create request =>
    match (do validateProviderName request.name; ProviderConfig.fromCreate crates request) with
    | .error e => (.error e, m)
    | .ok provider =>
      andThen (discoverProvider request.name) (m.mutate crates fault (editProviders fun providers =>
        if (TomlTable.get? providers request.name).isSome then
          .error (.providerAlreadyExists request.name)
        else .ok (TomlTable.set providers request.name (.table (providerTable provider)))))
  | .update name request =>
    if request.baseUrl.isNone && request.protocol.isNone && request.credentials.isNone &&
        request.headers.isNone && request.connectTimeoutSeconds.isNone then
      (.error (.invalidProvider "at least one provider field is required"), m)
    else
      andThen (fun config =>
          if (config.providers.get? name).any (·.models.isSome) then .ok ()
          else discoverProvider name config)
        (m.mutate crates fault (editProvider name request.edit))
  | .delete name =>
    m.mutate crates fault (editProviders fun providers =>
      if (TomlTable.get? providers name).isSome then .ok (TomlTable.remove providers name)
      else .error (.providerNotFound name))
  | .replaceModels name models =>
    match normalizeModels [] models with
    | .error e => (.error e, m)
    | .ok models =>
      andThen (requireProvider name) (m.mutate crates fault (editProvider name fun table =>
        .ok (TomlTable.set table "models" (.value (.array models)))))
  | .clearModels name =>
    andThen (discoverProvider name) (m.mutate crates fault (editProvider name fun table =>
      .ok (TomlTable.remove table "models")))

/-- `reload`: read everything again. -/
def reload (crates : ConfigCrates) (m : ConfigManager) : Except ConfigError Unit × ConfigManager :=
  match m.path with
  | none => (.error .readOnly, m)
  | some path =>
    match ServerConfig.load crates m.files path with
    | .error e => (.error e, m)
    | .ok config =>
      if m.revision < 2 ^ 64 - 1 then (.ok (), { m with revision := m.revision + 1, config })
      else (.error .revisionExhausted, m)

/-- A sequence of calls, each with the step of its write that fails. -/
def run (crates : ConfigCrates) (m : ConfigManager) (calls : List (ProviderCall × Option WriteFault)) :
    ConfigManager :=
  calls.foldl (fun m c => (m.call crates c.2 c.1).2) m

/-- The snapshot is what `load` gives for the files. -/
def Fresh (crates : ConfigCrates) (m : ConfigManager) : Prop :=
  ∃ path, m.path = some path ∧ ServerConfig.load crates m.files path = .ok m.config

/-! ## Mutations -/

variable {crates : ConfigCrates} {m : ConfigManager}

/-- What a write may leave in the directory. -/
theorem writeAtomic_files (path : ConfigPath) (text : String) (fault : Option WriteFault)
    (files : ConfigDirectory) :
    (writeAtomic path text fault files).2 = files ∨
      (writeAtomic path text fault files).2 = files.insert path.fileName (.file (.ok text)) := by
  unfold writeAtomic
  split
  · exact .inr rfl
  · exact .inl rfl
  · exact .inr rfl
  · exact .inl rfl

theorem writeAtomic_eq_ok {path : ConfigPath} {text : String} {fault : Option WriteFault}
    {files files' : ConfigDirectory} (h : writeAtomic path text fault files = (.ok (), files')) :
    files' = files.insert path.fileName (.file (.ok text)) := by
  unfold writeAtomic at h
  split at h <;> cases h
  rfl

/-- What a mutation, whether it succeeds or not, keeps: the path, and every name but the one of the
configuration file. -/
theorem mutate_keeps (crates : ConfigCrates) (fault : Option WriteFault)
    (operation : TomlTable → Except ConfigError TomlTable) {path : ConfigPath}
    (hpath : m.path = some path) :
    (m.mutate crates fault operation).2.path = some path ∧
      ∀ name, name ≠ path.fileName →
        (m.mutate crates fault operation).2.files.get? name = m.files.get? name := by
  simp only [mutate, hpath]
  split
  · exact ⟨hpath, fun _ _ => rfl⟩
  · next text config _ =>
    have hfiles := writeAtomic_files path text fault m.files
    have hother : ∀ name, name ≠ path.fileName →
        (writeAtomic path text fault m.files).2.get? name = m.files.get? name := by
      intro name hname
      rcases hfiles with hfiles | hfiles
      · rw [hfiles]
      · rw [hfiles, SortedMap.get?_insert_of_ne _ _ hname]
    split
    · next files hwrite =>
      rw [hwrite] at hother
      exact ⟨rfl, hother⟩
    · next files hwrite =>
      rw [hwrite] at hother
      split <;> exact ⟨rfl, hother⟩

/-- **What a successful mutation leaves behind**: the file holds a text whose configuration is valid
and is the snapshot. -/
theorem mutate_eq_ok {fault : Option WriteFault}
    {operation : TomlTable → Except ConfigError TomlTable} {path : ConfigPath}
    (hpath : m.path = some path) (h : (m.mutate crates fault operation).1 = .ok ()) :
    ∃ text, crates.fromStr text = .ok (m.mutate crates fault operation).2.config ∧
      (m.mutate crates fault operation).2.config.validate crates = .ok () ∧
      (m.mutate crates fault operation).2.files =
        m.files.insert path.fileName (.file (.ok text)) := by
  simp only [mutate, hpath] at h ⊢
  split at h
  · cases h
  · next text config hedited =>
    obtain ⟨document, -, hedited⟩ := Except.bind_eq_ok.mp hedited
    obtain ⟨document', -, hedited⟩ := Except.bind_eq_ok.mp hedited
    obtain ⟨config', hparse, hedited⟩ := Except.bind_eq_ok.mp hedited
    obtain ⟨_, hvalid, heq⟩ := Except.map_eq_ok.mp hedited
    cases heq
    split at h
    · cases h
    · next files hwrite =>
      split at h
      · next hrevision =>
        simp only [hrevision, ↓reduceIte]
        exact ⟨_, hparse, hvalid, writeAtomic_eq_ok hwrite⟩
      · cases h

theorem andThen_snd (next : ServerConfig → Except ConfigError Unit)
    (r : Except ConfigError Unit × ConfigManager) : (andThen next r).2 = r.2 := by
  obtain ⟨_ | _, _⟩ := r <;> rfl

theorem fst_of_andThen {next : ServerConfig → Except ConfigError Unit}
    {r : Except ConfigError Unit × ConfigManager} (h : (andThen next r).1 = .ok ()) :
    r.1 = .ok () := by
  obtain ⟨_ | _, _⟩ := r
  · cases h
  · rfl

/-- A call leaves what some mutation leaves, which has succeeded when the call has, or it changes
nothing and fails. -/
theorem call_mutates (crates : ConfigCrates) (fault : Option WriteFault) (m : ConfigManager)
    (c : ProviderCall) :
    (∃ operation, (m.call crates fault c).2 = (m.mutate crates fault operation).2 ∧
      ((m.call crates fault c).1 = .ok () → (m.mutate crates fault operation).1 = .ok ())) ∨
    (m.call crates fault c).2 = m ∧ (m.call crates fault c).1 ≠ .ok () := by
  cases c with
  | create request =>
    simp only [call]
    split
    · exact .inr ⟨rfl, nofun⟩
    · exact .inl ⟨_, andThen_snd .., fst_of_andThen⟩
  | update name request =>
    simp only [call]
    split
    · exact .inr ⟨rfl, nofun⟩
    · exact .inl ⟨_, andThen_snd .., fst_of_andThen⟩
  | delete name => exact .inl ⟨_, rfl, id⟩
  | replaceModels name models =>
    simp only [call]
    split
    · exact .inr ⟨rfl, nofun⟩
    · exact .inl ⟨_, andThen_snd .., fst_of_andThen⟩
  | clearModels name => exact .inl ⟨_, andThen_snd .., fst_of_andThen⟩

theorem call_keeps (crates : ConfigCrates) (fault : Option WriteFault) (c : ProviderCall)
    {path : ConfigPath} (hpath : m.path = some path) :
    (m.call crates fault c).2.path = some path ∧
      ∀ name, name ≠ path.fileName →
        (m.call crates fault c).2.files.get? name = m.files.get? name := by
  rcases call_mutates crates fault m c with ⟨operation, hcall, -⟩ | ⟨hcall, -⟩
  · rw [hcall]
    exact mutate_keeps crates fault operation hpath
  · rw [hcall]
    exact ⟨hpath, fun _ _ => rfl⟩

/-- What a sequence of calls keeps. -/
theorem run_keeps (crates : ConfigCrates) (calls : List (ProviderCall × Option WriteFault))
    {path : ConfigPath} (hpath : m.path = some path) :
    (m.run crates calls).path = some path ∧
      ∀ name, name ≠ path.fileName → (m.run crates calls).files.get? name = m.files.get? name := by
  induction calls generalizing m with
  | nil => exact ⟨hpath, fun _ _ => rfl⟩
  | cons c calls ih =>
    obtain ⟨hpath', hfiles⟩ := call_keeps crates c.2 c.1 hpath
    obtain ⟨hpath'', hfiles'⟩ := ih hpath'
    refine ⟨hpath'', ?_⟩
    intro name hname
    exact (hfiles' name hname).trans (hfiles name hname)

/-! ## Freshness -/

/-- After a successful mutation `load` differs from the snapshot in the Markdown agents alone. -/
theorem fresh_iff_readAgents {path : ConfigPath} {text : String} (hpath : m.path = some path)
    (hparse : crates.fromStr text = .ok m.config) (hvalid : m.config.validate crates = .ok ())
    (hfile : m.files.get? path.fileName = some (.file (.ok text))) :
    m.Fresh crates ↔ ServerConfig.readAgents crates m.files path ∅ = .ok ∅ := by
  have hread : ServerConfig.readFile crates m.files path = .ok m.config := by
    rw [ServerConfig.readFile, hfile]
    exact hparse
  have hnone := ServerConfig.markdownAgents_of_readFile hread
  constructor
  · rintro ⟨path', hpath', hload⟩
    cases hpath.symm.trans hpath'
    obtain ⟨file, agents, hfile', hagents, -, heq⟩ := ServerConfig.load_eq_ok.mp hload
    rw [heq] at hnone
    rw [hagents]
    exact congrArg _ hnone
  · intro hagents
    refine ⟨path, hpath, ServerConfig.load_eq_ok.mpr ⟨m.config, ∅, hread, hagents, hvalid, ?_⟩⟩
    rw [← hnone]

/-- A reload leaves a fresh snapshot as it is. -/
theorem reload_config (h : m.Fresh crates) : (m.reload crates).2.config = m.config := by
  obtain ⟨path, hpath, hload⟩ := h
  simp only [reload, hpath, hload]
  split <;> rfl

/-- **The snapshot after a successful call** equals what `load` gives exactly when the directory
`agents` has no Markdown file and the configuration file is not itself called `agents`: a mutation
parses the file and does not read the directory. -/
theorem fresh_iff {files : ConfigDirectory} {path : ConfigPath} {config : ServerConfig}
    (hload : ServerConfig.load crates files path = .ok config)
    (calls : List (ProviderCall × Option WriteFault)) (c : ProviderCall) (fault : Option WriteFault)
    (hok : (((ConfigManager.mk (some path) files 1 config).run crates calls).call crates fault c).1 =
      .ok ()) :
    (((ConfigManager.mk (some path) files 1 config).run crates calls).call crates fault c).2.Fresh
        crates ↔
      path.fileName ≠ "agents" ∧ files.NoMarkdown := by
  obtain ⟨hpath, hkeeps⟩ := run_keeps crates calls (m := ⟨some path, files, 1, config⟩) rfl
  generalize (ConfigManager.mk (some path) files 1 config).run crates calls = m at *
  obtain ⟨hpath', hkeeps'⟩ := call_keeps crates fault c hpath
  rcases call_mutates crates fault m c with ⟨operation, hcall, hsucceeds⟩ | ⟨-, hfails⟩
  · obtain ⟨text, hparse, hvalid, hfiles⟩ := mutate_eq_ok hpath (hsucceeds hok)
    rw [← hcall] at hparse hvalid hfiles
    rw [fresh_iff_readAgents hpath' hparse hvalid (by rw [hfiles, SortedMap.get?_insert_self])]
    obtain ⟨-, agents, -, hagents, -, -⟩ := ServerConfig.load_eq_ok.mp hload
    by_cases hname : path.fileName = "agents"
    · -- the file stands where the directory would be
      have hnode : (m.call crates fault c).2.files.get? "agents" = some (.file (.ok text)) := by
        rw [hfiles, ← hname, SortedMap.get?_insert_self]
      refine iff_of_false ?_ fun h => h.1 hname
      rw [ServerConfig.readAgents, hnode]
      nofun
    · have hsame : ServerConfig.readAgents crates (m.call crates fault c).2.files path ∅ =
          .ok agents := by
        rw [← hagents, ServerConfig.readAgents, ServerConfig.readAgents,
          hkeeps' _ (Ne.symm hname), hkeeps _ (Ne.symm hname)]
      rw [hsame, Except.ok.injEq, ServerConfig.readAgents_eq_empty_iff hagents]
      exact (and_iff_right hname).symm
  · exact absurd hok hfails

/-! ## A file with one provider -/

/-- A configuration file with one provider. -/
def localToml : String := "[providers.local]\nbase_url = \"http://localhost:11434\"\n"

def localConfig : ServerConfig where
  providers := (∅ : SortedMap String ProviderConfig).insert "local"
    { baseUrl := "http://localhost:11434" }

def localDocument : TomlTable :=
  [({ name := "providers" }, .table [({ name := "local" }, .table
    [({ name := "base_url" }, .value (.string "http://localhost:11434"))])])]

/-- The crates on the texts of the example. -/
def localCrates : ConfigCrates where
  fromToml text := if text = localToml then .ok localConfig.toTomlConfig else .error "expected"
  parseDocument text := if text = localToml then .ok localDocument else .error "expected"
  documentText document := if (TomlTable.get? document "providers").isSome then localToml else ""
  fromYaml text :=
    if text = "description: Reviews code\n" then .ok { description := some "Reviews code" }
    else .error "unknown field"
  urlScheme url := if url = "http://localhost:11434" then .ok "http" else .error "relative URL"
  headerName _ := .ok ()
  headerValue _ := .ok ()

def reviewerEntry : DirectoryEntry where
  path := "agents/reviewer.md"
  extension := some "md"
  stem := some "reviewer"
  isFile := .ok true
  text := .ok "---\ndescription: Reviews code\n---\nBe strict.\n"

def reviewer : AgentDefinition where
  id := "reviewer"
  description := some "Reviews code"
  instructions := some "Be strict.\n"

def localPath : ConfigPath := ⟨"", "piqo.toml"⟩

/-- The file with the given entries in the directory next to it. -/
def localFiles (entries : List (Except String DirectoryEntry)) : ConfigDirectory :=
  ((∅ : ConfigDirectory).insert "agents" (.directory (.ok entries))).insert "piqo.toml"
    (.file (.ok localToml))

def localManager (entries : List (Except String DirectoryEntry)) (config : ServerConfig) :
    ConfigManager :=
  ⟨some localPath, localFiles entries, 1, config⟩

/-- Without Markdown agents a call leaves a fresh snapshot. -/
theorem fresh_iff_plain :
    (((localManager [] localConfig).run localCrates []).call localCrates none
      (.clearModels "local")).2.Fresh localCrates := by
  have hload : ServerConfig.load localCrates (localFiles []) localPath = .ok localConfig := by
    decide +kernel
  refine (fresh_iff hload [] (.clearModels "local") none ?_).mpr ⟨?_, ?_⟩
  · decide +kernel
  · decide
  · intro entries hentries entry hentry
    cases hentries
    cases hentry

/-- The configuration with the Markdown agent. -/
def reviewerConfig : ServerConfig :=
  { localConfig with
    markdownAgents := (∅ : SortedMap String AgentDefinition).insert "reviewer" reviewer }

/-- The file and the agent are accepted, and after a call that succeeds the agent is gone. -/
theorem fresh_fails :
    ServerConfig.load localCrates (localFiles [.ok reviewerEntry]) localPath = .ok reviewerConfig ∧
    (let before := localManager [.ok reviewerEntry] reviewerConfig
      let after := before.call localCrates none (.clearModels "local")
      after.1 = .ok () ∧ ¬ after.2.Fresh localCrates ∧
      before.config.toPiqoConfig.agent "reviewer" = .ok reviewer ∧
      after.2.config.toPiqoConfig.agent "reviewer" = .error "agent reviewer is not configured") := by
  refine ⟨by decide +kernel, by decide +kernel, ?_, by decide +kernel, by decide +kernel⟩
  rintro ⟨path, hpath, hload⟩
  have hkept := (call_keeps localCrates none (.clearModels "local")
    (m := localManager [.ok reviewerEntry] reviewerConfig) rfl).1
  cases hkept.symm.trans hpath
  revert hload
  decide +kernel

/-! ## Mutations that fail -/

/-- A fault behind the rename: the directory is not synced, or the revisions are used up. -/
def LateFault (m : ConfigManager) : Option WriteFault → Prop
  | none => 2 ^ 64 - 1 ≤ m.revision
  | some fault => fault.step = .syncDirectory

/-- The mutation is refused, or it comes to no late fault, or the file has the new text already. -/
def NotTooLate (crates : ConfigCrates) (fault : Option WriteFault)
    (operation : TomlTable → Except ConfigError TomlTable) (m : ConfigManager) : Prop :=
  ∀ path text config, m.path = some path →
    edited crates path m.files operation = .ok (text, config) → m.LateFault fault →
    m.files.get? path.fileName = some (.file (.ok text))

/-- The file and the snapshot are as they were. -/
def Unchanged (before after : ConfigManager) : Prop :=
  after.config = before.config ∧ after.revision = before.revision ∧
    ∀ path, before.path = some path →
      after.files.get? path.fileName = before.files.get? path.fileName

theorem Unchanged.refl (m : ConfigManager) : Unchanged m m := ⟨rfl, rfl, fun _ _ => rfl⟩

/-- Only the files may have changed. -/
theorem unchanged_iff {path : ConfigPath} (hpath : m.path = some path) (files : ConfigDirectory) :
    m.Unchanged ⟨some path, files, m.revision, m.config⟩ ↔
      files.get? path.fileName = m.files.get? path.fileName := by
  refine ⟨fun h => h.2.2 path hpath, fun h => ⟨rfl, rfl, fun path' hpath' => ?_⟩⟩
  cases hpath.symm.trans hpath'
  exact h

/-- What a write leaves of the file: the new text from the rename on. -/
theorem writeAtomic_get? (path : ConfigPath) (text : String) (fault : Option WriteFault)
    (files : ConfigDirectory) :
    (writeAtomic path text fault files).2.get? path.fileName =
      if (fault.all fun fault => fault.step = .syncDirectory) then some (.file (.ok text))
      else files.get? path.fileName := by
  unfold writeAtomic
  split
  · exact SortedMap.get?_insert_self _ _ _
  · rfl
  · exact SortedMap.get?_insert_self _ _ _
  · next step source _ hsync _ =>
    refine (if_neg ?_).symm
    cases step <;> simp_all

/-- A write with a fault fails. -/
theorem writeAtomic_isOk (path : ConfigPath) (text : String) (fault : Option WriteFault)
    (files : ConfigDirectory) :
    (writeAtomic path text fault files).1 = .ok () ↔ fault = none := by
  unfold writeAtomic
  split <;> simp

theorem notTooLate_iff {fault : Option WriteFault}
    {operation : TomlTable → Except ConfigError TomlTable} {path : ConfigPath} {text : String}
    {config : ServerConfig} (hpath : m.path = some path)
    (hedited : edited crates path m.files operation = .ok (text, config)) :
    m.NotTooLate crates fault operation ↔
      (m.LateFault fault → m.files.get? path.fileName = some (.file (.ok text))) := by
  constructor
  · exact fun h => h path text config hpath hedited
  · intro h path' text' config' hpath' hedited'
    cases hpath.symm.trans hpath'
    cases hedited.symm.trans hedited'
    exact h

/-- **A mutation that fails changes nothing exactly when no fault comes after the rename**, or the
file had the new text before. -/
theorem mutate_unchanged_iff (crates : ConfigCrates) (fault : Option WriteFault)
    (operation : TomlTable → Except ConfigError TomlTable) (m : ConfigManager) :
    ((∃ e, (m.mutate crates fault operation).1 = .error e) →
        m.Unchanged (m.mutate crates fault operation).2) ↔
      m.NotTooLate crates fault operation := by
  unfold mutate
  cases hpath : m.path with
  | none => exact iff_of_true (fun _ => Unchanged.refl m) fun path _ _ h => by cases hpath ▸ h
  | some path =>
    dsimp only
    cases hedited : edited crates path m.files operation with
    | error e =>
      refine iff_of_true (fun _ => Unchanged.refl m) fun path' text config hpath' hedited' => ?_
      cases hpath.symm.trans hpath'
      cases hedited.symm.trans hedited'
    | ok result =>
      obtain ⟨text, config⟩ := result
      rw [notTooLate_iff hpath hedited]
      have hget := writeAtomic_get? path text fault m.files
      have hok := writeAtomic_isOk path text fault m.files
      dsimp only
      cases hwrite : writeAtomic path text fault m.files with
      | mk result files =>
        rw [hwrite] at hget hok
        cases result with
        | error e =>
          have herror : ∃ e', (Except.error e : Except ConfigError Unit) = .error e' := ⟨e, rfl⟩
          rw [forall_prop_of_true herror]
          dsimp only
          rw [unchanged_iff hpath]
          cases fault with
          | none => exact absurd (hok.mpr rfl) (by simp)
          | some fault =>
            -- the file has the new text if the directory is not synced, else it is as before
            by_cases hsync : fault.step = .syncDirectory
            · have hnew : files.get? path.fileName = some (.file (.ok text)) := by
                simpa [hsync] using hget
              rw [hnew, LateFault, forall_prop_of_true hsync, eq_comm]
            · have hsame : files.get? path.fileName = m.files.get? path.fileName := by
                simpa [hsync] using hget
              exact iff_of_true hsame fun h => absurd h hsync
        | ok _ =>
          obtain rfl := hok.mp rfl
          have hnew : files.get? path.fileName = some (.file (.ok text)) := hget
          dsimp only
          split
          · next hrevision =>
            refine iff_of_true (fun ⟨e, h⟩ => by cases h) fun h => ?_
            exact absurd hrevision (Nat.not_lt.mpr h)
          · next hrevision =>
            have herror : ∃ e', (Except.error .revisionExhausted : Except ConfigError Unit) =
                .error e' := ⟨_, rfl⟩
            rw [forall_prop_of_true herror]
            dsimp only
            rw [unchanged_iff hpath, hnew, LateFault,
              forall_prop_of_true (Nat.not_lt.mp hrevision), eq_comm]
/-! ### A model list that is written -/

def listedToml : String := localToml ++ "models = [\"small\"]\n"

def listedConfig : ServerConfig where
  providers := (∅ : SortedMap String ProviderConfig).insert "local"
    { baseUrl := "http://localhost:11434", models := some ["small"] }

/-- The crates on the text with models, too. -/
def listedCrates : ConfigCrates :=
  { localCrates with
    fromToml := fun text =>
      if text = listedToml then .ok listedConfig.toTomlConfig else localCrates.fromToml text
    documentText := fun document =>
      match TomlTable.get? document "providers" with
      | some (.table providers _) => match TomlTable.get? providers "local" with
        | some (.table provider _) =>
          if (TomlTable.get? provider "models").isSome then listedToml else localToml
        | _ => ""
      | _ => "" }

/-- The edit of `replace_models`. -/
def listModels : TomlTable → Except ConfigError TomlTable :=
  editProvider "local" fun table => .ok (TomlTable.set table "models" (.value (.array ["small"])))

/-- The directory cannot be synced: an error, a new file and the old snapshot. -/
theorem mutate_changed :
    let before := localManager [] localConfig
    let after := before.mutate listedCrates (some ⟨.syncDirectory, "Input/output error"⟩) listModels
    after.1 = .error (.write localPath.display "Input/output error") ∧
      (before.files.get? "piqo.toml").map FileNode.readToString = some (.ok localToml) ∧
      (after.2.files.get? "piqo.toml").map FileNode.readToString = some (.ok listedToml) ∧
      ¬before.Unchanged after.2 := by
  have hafter : ((mutate listedCrates (some ⟨.syncDirectory, "Input/output error"⟩) listModels
      (localManager [] localConfig)).2.files.get? "piqo.toml").map FileNode.readToString =
        some (.ok listedToml) := by
    decide +kernel
  refine ⟨by decide +kernel, by decide +kernel, hafter, fun h => ?_⟩
  have hfile := h.2.2 localPath rfl
  have hname : localPath.fileName = "piqo.toml" := rfl
  rw [hname] at hfile
  rw [hfile] at hafter
  revert hafter
  decide +kernel

end ConfigManager

end Piqo
