import PiqoServer.Library.Tasks
import PiqoServer.Server.Providers

/-!
# Discovering models

The models of a provider without a list of its own are asked for at its endpoint and cached
(`ConfigManager` in `piqo-server/src/config.rs`). A discovery reads the configuration, asks the
provider, compares the configuration again and writes the cache. A mutation replaces the
configuration and then clears the entry of its provider, a reload clears all of them. No lock spans
these steps, so they interleave. A call whose client is gone stops between two of its steps.

## Main definitions

* `DiscoveryOp`, `DiscoveryWorld`: the steps, and what they share
* `discoverProvider`, `DiscoveryCall.program`: the calls
* `DiscoveryCache.Current`: an entry of a provider that is configured, got with what is configured
* `DiscoveryServer.step`: calls that come, go on, and are abandoned, and files that are edited
* `DiscoveryServer.InTime`: the steps that keep entries current

## Main results

* `providerCall_alone`: on its own a call does what `ConfigManager.call` says
* `discovery_current`: after a run of such steps, with no call under way, the cache is current
* `discovery_stale`: a run after which it is not
-/

namespace Piqo

namespace ConfigManager

variable {crates : ConfigCrates} {m : ConfigManager}

/-- A mutation that fails leaves the snapshot. -/
theorem mutate_error_config {fault : Option WriteFault}
    {operation : TomlTable → Except ConfigError TomlTable} {e : ConfigError}
    (h : (m.mutate crates fault operation).1 = .error e) :
    (m.mutate crates fault operation).2.config = m.config := by
  unfold mutate at h ⊢
  split at h
  · rfl
  · split at h
    · rfl
    · split at h
      · rfl
      · split at h
        · cases h
        · next hrevision => simp only [hrevision, ↓reduceIte]

/-- A reload that fails leaves the snapshot. -/
theorem reload_error_config {e : ConfigError} (h : (m.reload crates).1 = .error e) :
    (m.reload crates).2.config = m.config := by
  unfold reload at h ⊢
  split at h
  · rfl
  · split at h
    · rfl
    · split at h
      · cases h
      · next hrevision => simp only [hrevision, ↓reduceIte]

theorem andThen_ok (r : Except ConfigError Unit × ConfigManager) :
    andThen (fun _ => .ok ()) r = r := by
  rcases r with ⟨e | u, m⟩ <;> rfl

theorem requireProvider_eq_ok {name : String} {config : ServerConfig} {provider : ProviderConfig}
    (h : config.providers.get? name = some provider) : requireProvider name config = .ok () :=
  if_pos ((SortedMap.contains_iff _ _).mpr ⟨provider, h⟩)

theorem discoverProvider_eq_ok {name : String} {config : ServerConfig}
    (h : discoverProvider name config = .ok ()) :
    ∃ provider, config.providers.get? name = some provider := by
  unfold discoverProvider at h
  split at h
  · cases h
  · next provider hprovider => exact ⟨provider, hprovider⟩

end ConfigManager

/-! ## Entries -/

/-- `DiscoveredModel`. -/
structure DiscoveredModel where
  id : String
  metadata : Json

inductive DiscoveryStatus where
  | pending | succeeded | failed | notApplicable
  deriving DecidableEq, Repr

structure ModelDiscovery where
  status : DiscoveryStatus
  lastAttemptAt : Option String
  error : Option String
  deriving DecidableEq, Repr

structure DiscoveryCache where
  models : List String
  metadata : SortedMap String Json
  discovery : ModelDiscovery
  /-- The endpoint and the headers that were asked; the code keeps no such record. -/
  asked : Option (String × SortedMap String String) := none
  deriving DecidableEq

def ConfigError.message : ConfigError → String
  | .read path source => s!"failed to read configuration {path}: {source}"
  | .write path source => s!"failed to write configuration {path}: {source}"
  | .parse source => s!"failed to parse TOML configuration: {source}"
  | .agentRead path source => s!"failed to read agent definition {path}: {source}"
  | .invalidAgentDefinition path reason => s!"invalid agent definition {path}: {reason}"
  | .edit source => s!"failed to edit TOML configuration: {source}"
  | .providerNotFound name => s!"provider {name} is not configured"
  | .providerAlreadyExists name => s!"provider {name} already exists"
  | .manualModelOverride name => s!"provider {name} has a manual model override"
  | .conflictingCredentials name => s!"provider {name} has both api_key and api_key_env"
  | .invalidProtocol provider source => s!"provider {provider} uses an invalid protocol: {source}"
  | .invalidProvider reason => s!"invalid provider configuration: {reason}"
  | .invalidNativeTools reason => s!"invalid native tool configuration: {reason}"
  | .invalidMcp reason => s!"invalid MCP server configuration: {reason}"
  | .invalidOrchestration reason => s!"invalid orchestration configuration: {reason}"
  | .invalidResourceLimits reason => s!"invalid resource-limit configuration: {reason}"
  | .invalidStorage reason => s!"invalid storage configuration: {reason}"
  | .readOnly => "configuration is read-only in this server instance"
  | .revisionExhausted => "configuration revision is exhausted"

def ResolveFailure.message : ResolveFailure → String
  | .config e => e.message
  | .missingCredential provider envVariable =>
    s!"environment variable {envVariable} for provider {provider} is not set"

/-! ## Steps -/

/-- The steps of discoveries, mutations and reloads. -/
inductive DiscoveryOp where
  | snapshot
  | now
  /-- Put an entry for the provider that was read. -/
  | setDiscovery (name : String) (original : ProviderConfig) (cache : DiscoveryCache)
  | clearDiscovery (name : String)
  | clearAll
  /-- A mutation of the table of a provider, under the mutex. -/
  | mutate (name : String) (operation : TomlTable → Except ConfigError TomlTable)
  | reloadSnapshot
  /-- `discover_models` of the transport. -/
  | discoverModels (provider : ProviderConfig.Resolved)

abbrev DiscoveryOp.Reply : DiscoveryOp → Type
  | .snapshot => ServerConfig
  | .now => String
  | .setDiscovery _ _ _ | .clearDiscovery _ | .clearAll => Unit
  | .mutate _ _ | .reloadSnapshot => Except ConfigError Unit
  | .discoverModels _ => Except String (List DiscoveredModel)

abbrev discoverySignature : Signature where
  Op := DiscoveryOp
  Reply := DiscoveryOp.Reply

abbrev DiscoveryProgram := Program discoverySignature ConfigError

/-- One step. -/
def DiscoveryOp.perform (op : DiscoveryOp) : DiscoveryProgram op.Reply := .call op .ret

/-- What the steps share. -/
structure DiscoveryWorld where
  manager : ConfigManager
  cache : SortedMap String DiscoveryCache := ∅
  clock : Nat := 0

/-- What the steps get from outside. -/
structure DiscoverySurroundings where
  crates : ConfigCrates
  /-- The environment of the process. -/
  environment : String → Option String
  /-- The step of a write that fails. -/
  fault : Nat → Option WriteFault
  now : Nat → String
  models : Nat → ProviderConfig.Resolved → Except String (List DiscoveredModel)

def DiscoveryWorld.handle (env : DiscoverySurroundings) :
    (op : DiscoveryOp) → DiscoveryWorld → op.Reply × DiscoveryWorld
  | .snapshot, w => (w.manager.config, { w with clock := w.clock + 1 })
  | .now, w => (env.now w.clock, { w with clock := w.clock + 1 })
  | .setDiscovery name _ cache, w =>
    ((), { w with cache := w.cache.insert name cache, clock := w.clock + 1 })
  | .clearDiscovery name, w =>
    ((), { w with cache := w.cache.erase name, clock := w.clock + 1 })
  | .clearAll, w => ((), { w with cache := ∅, clock := w.clock + 1 })
  | .mutate _ operation, w =>
    let r := w.manager.mutate env.crates (env.fault w.clock) operation
    (r.1, { w with manager := r.2, clock := w.clock + 1 })
  | .reloadSnapshot, w =>
    let r := w.manager.reload env.crates
    (r.1, { w with manager := r.2, clock := w.clock + 1 })
  | .discoverModels provider, w => (env.models w.clock provider, { w with clock := w.clock + 1 })

/-! ## Calls -/

/-- `provider` and `models`, whose answers are left out. -/
def readProvider (name : String) : DiscoveryProgram Unit := do
  let config ← DiscoveryOp.snapshot.perform
  .ofExcept (ConfigManager.requireProvider name config)

def pendingCache (attemptedAt : String) : DiscoveryCache where
  models := []
  metadata := ∅
  discovery := ⟨.pending, some attemptedAt, none⟩

def succeededCache (attemptedAt : String) (provider : ProviderConfig.Resolved)
    (models : List DiscoveredModel) : DiscoveryCache where
  models := models.map (·.id)
  metadata := models.foldl (fun metadata model => metadata.insert model.id model.metadata) ∅
  discovery := ⟨.succeeded, some attemptedAt, none⟩
  asked := some (provider.modelsEndpoint, provider.headers)

def failedCache (attemptedAt error : String) : DiscoveryCache where
  models := []
  metadata := ∅
  discovery := ⟨.failed, some attemptedAt, some error⟩

/-- Ask the provider for its models. -/
def askModels (environment : String → Option String) (name attemptedAt : String)
    (original : ProviderConfig) : DiscoveryProgram DiscoveryCache :=
  match original.resolve environment name with
  | .ok provider => do
    match ← (DiscoveryOp.discoverModels provider).perform with
    | .ok models => return succeededCache attemptedAt provider models
    | .error e => return failedCache attemptedAt e
  | .error e => return failedCache attemptedAt e.message

def discoverProvider (environment : String → Option String) (name : String) :
    DiscoveryProgram Unit := do
  let config ← DiscoveryOp.snapshot.perform
  match config.providers.get? name with
  | none => .fail (.providerNotFound name)
  | some original =>
    if original.models.isSome then .fail (.manualModelOverride name)
    else
      let attemptedAt ← DiscoveryOp.now.perform
      (DiscoveryOp.setDiscovery name original (pendingCache attemptedAt)).perform
      let cache ← askModels environment name attemptedAt original
      let config ← DiscoveryOp.snapshot.perform
      match config.providers.get? name with
      | none => .fail (.providerNotFound name)
      | some current =>
        if current ≠ original then readProvider name
        else
          (DiscoveryOp.setDiscovery name original cache).perform
          readProvider name

/-- A mutation, after which the entry of the provider is cleared. -/
def mutateThen (name : String) (operation : TomlTable → Except ConfigError TomlTable)
    (next : DiscoveryProgram Unit) : DiscoveryProgram Unit := do
  let result ← (DiscoveryOp.mutate name operation).perform
  .ofExcept result
  (DiscoveryOp.clearDiscovery name).perform
  next

def refreshModels (environment : String → Option String) (name : String) :
    DiscoveryProgram Unit := do
  let config ← DiscoveryOp.snapshot.perform
  match config.providers.get? name with
  | none => .fail (.providerNotFound name)
  | some provider =>
    if provider.models.isSome then .fail (.manualModelOverride name)
    else
      discoverProvider environment name
      readProvider name

/-- A reload holds the mutex until it has cleared; nothing below needs that. -/
def reloadConfig : DiscoveryProgram Unit := do
  let result ← DiscoveryOp.reloadSnapshot.perform
  .ofExcept result
  DiscoveryOp.clearAll.perform

/-- The provider calls of the API. -/
def providerCall (env : DiscoverySurroundings) : ProviderCall → DiscoveryProgram Unit
  | .create request =>
    match (do validateProviderName request.name; ProviderConfig.fromCreate env.crates request) with
    | .error e => .fail e
    | .ok provider =>
      mutateThen request.name
        (editProviders fun providers =>
          if (TomlTable.get? providers request.name).isSome then
            .error (.providerAlreadyExists request.name)
          else .ok (TomlTable.set providers request.name (.table (providerTable provider))))
        (discoverProvider env.environment request.name)
  | .update name request =>
    if request.baseUrl.isNone && request.protocol.isNone && request.credentials.isNone &&
        request.headers.isNone && request.connectTimeoutSeconds.isNone then
      .fail (.invalidProvider "at least one provider field is required")
    else
      mutateThen name (editProvider name request.edit) do
        let config ← DiscoveryOp.snapshot.perform
        if (config.providers.get? name).any (·.models.isSome) then readProvider name
        else discoverProvider env.environment name
  | .delete name =>
    mutateThen name
      (editProviders fun providers =>
        if (TomlTable.get? providers name).isSome then .ok (TomlTable.remove providers name)
        else .error (.providerNotFound name))
      (return ())
  | .replaceModels name models =>
    match normalizeModels [] models with
    | .error e => .fail e
    | .ok models =>
      mutateThen name
        (editProvider name fun table =>
          .ok (TomlTable.set table "models" (.value (.array models))))
        (readProvider name)
  | .clearModels name =>
    mutateThen name (editProvider name fun table => .ok (TomlTable.remove table "models")) do
      discoverProvider env.environment name
      readProvider name

inductive DiscoveryCall where
  | discover (name : String)
  | refresh (name : String)
  | provider (call : ProviderCall)
  | reload

def DiscoveryCall.program (env : DiscoverySurroundings) : DiscoveryCall → DiscoveryProgram Unit
  | .discover name => discoverProvider env.environment name
  | .refresh name => refreshModels env.environment name
  | .provider call => providerCall env call
  | .reload => reloadConfig

/-! ## Calls on their own -/

/-- What a program does on its own, up to the cache. -/
def DoesAlone (env : DiscoverySurroundings) (w : DiscoveryWorld) (p : DiscoveryProgram Unit)
    (result : Except ConfigError Unit × ConfigManager) : Prop :=
  ∃ w', p.run (DiscoveryWorld.handle env) w = (result.1, w') ∧ w'.manager = result.2

section Alone

variable {env : DiscoverySurroundings} {w : DiscoveryWorld}

theorem run_perform_bind {α : Type} (op : DiscoveryOp) (f : op.Reply → DiscoveryProgram α) :
    (op.perform >>= f).run (DiscoveryWorld.handle env) w =
      (f (DiscoveryWorld.handle env op w).1).run (DiscoveryWorld.handle env)
        (DiscoveryWorld.handle env op w).2 := rfl

theorem readProvider_run (name : String) :
    (readProvider name).run (DiscoveryWorld.handle env) w =
      (ConfigManager.requireProvider name w.manager.config, { w with clock := w.clock + 1 }) := by
  rw [readProvider, run_perform_bind, Program.run_ofExcept]
  rfl

/-- Asking for models gets an entry, and changes nothing. -/
theorem askModels_then {α : Type} {name attemptedAt : String} {original : ProviderConfig}
    {f : DiscoveryCache → DiscoveryProgram α} {P : Except ConfigError α × DiscoveryWorld → Prop}
    (h : ∀ cache clock, P ((f cache).run (DiscoveryWorld.handle env) { w with clock })) :
    P ((askModels env.environment name attemptedAt original >>= f).run
      (DiscoveryWorld.handle env) w) := by
  unfold askModels
  split
  · next provider _ =>
    rw [Program.bind_assoc, run_perform_bind]
    cases (DiscoveryWorld.handle env (.discoverModels provider) w).1 with
    | ok models => exact h _ _
    | error e => exact h _ _
  · exact h _ w.clock

/-- A discovery on its own finds the provider as it was, whatever it is told. -/
theorem discoverProvider_alone (name : String) :
    DoesAlone env w (discoverProvider env.environment name)
      (ConfigManager.discoverProvider name w.manager.config, w.manager) := by
  unfold discoverProvider ConfigManager.discoverProvider
  rw [DoesAlone, run_perform_bind]
  dsimp only [DiscoveryWorld.handle]
  cases hprovider : w.manager.config.providers.get? name with
  | none => exact ⟨_, rfl, rfl⟩
  | some original =>
    dsimp only
    split
    · exact ⟨_, rfl, rfl⟩
    · rw [run_perform_bind, run_perform_bind]
      refine askModels_then (P := fun r => ∃ w', r = (.ok (), w') ∧ w'.manager = w.manager)
        fun cache clock => ?_
      rw [run_perform_bind]
      dsimp only [DiscoveryWorld.handle]
      rw [hprovider]
      dsimp only
      rw [if_neg (not_not.mpr rfl), run_perform_bind, readProvider_run]
      exact ⟨_, Prod.ext (ConfigManager.requireProvider_eq_ok hprovider) rfl, rfl⟩

/-- A mutation on its own, and what comes after it. -/
theorem mutateThen_alone {name : String} {operation : TomlTable → Except ConfigError TomlTable}
    {p : DiscoveryProgram Unit} {next : ServerConfig → Except ConfigError Unit}
    (hnext : ∀ w : DiscoveryWorld, DoesAlone env w p (next w.manager.config, w.manager)) :
    DoesAlone env w (mutateThen name operation p) (ConfigManager.andThen next
      (w.manager.mutate env.crates (env.fault w.clock) operation)) := by
  rw [DoesAlone, mutateThen, run_perform_bind]
  dsimp only [DiscoveryWorld.handle]
  rcases w.manager.mutate env.crates (env.fault w.clock) operation with ⟨e | u, manager⟩
  · exact ⟨_, rfl, rfl⟩
  · exact hnext { manager, cache := w.cache.erase name, clock := w.clock + 2 }

/-- **On its own** a call does what `ConfigManager.call` says, to the manager and in its answer. -/
theorem providerCall_alone (call : ProviderCall) : DoesAlone env w (providerCall env call)
    (w.manager.call env.crates (env.fault w.clock) call) := by
  cases call with
  | create request =>
    simp only [providerCall, ConfigManager.call]
    generalize (do validateProviderName request.name; ProviderConfig.fromCreate env.crates request)
      = checked
    cases checked with
    | error e => exact ⟨w, rfl, rfl⟩
    | ok provider => exact mutateThen_alone fun w => discoverProvider_alone _
  | update name request =>
    simp only [providerCall, ConfigManager.call]
    split
    · exact ⟨w, rfl, rfl⟩
    · refine mutateThen_alone fun w => ?_
      show DoesAlone env { w with clock := w.clock + 1 }
        (if (w.manager.config.providers.get? name).any (·.models.isSome) then readProvider name
          else discoverProvider env.environment name) _
      split
      · next hmanual =>
        obtain ⟨provider, hprovider, -⟩ := (Option.any_eq_true _ _).mp hmanual
        rw [DoesAlone, readProvider_run]
        exact ⟨_, Prod.ext (ConfigManager.requireProvider_eq_ok hprovider) rfl, rfl⟩
      · exact discoverProvider_alone name
  | delete name =>
    have hdelete : DoesAlone env w (providerCall env (.delete name)) (ConfigManager.andThen
        (fun _ => .ok ()) (w.manager.call env.crates (env.fault w.clock) (.delete name))) :=
      mutateThen_alone fun w => ⟨w, rfl, rfl⟩
    rwa [ConfigManager.andThen_ok] at hdelete
  | replaceModels name models =>
    simp only [providerCall, ConfigManager.call]
    generalize normalizeModels [] models = checked
    cases checked with
    | error e => exact ⟨w, rfl, rfl⟩
    | ok models => exact mutateThen_alone fun w => ⟨_, readProvider_run name, rfl⟩
  | clearModels name =>
    refine mutateThen_alone fun w => ?_
    obtain ⟨w', hrun, hmanager⟩ : DoesAlone env w _ _ := discoverProvider_alone name
    replace hmanager : w'.manager = w.manager := hmanager
    rw [DoesAlone, Program.run_bind, hrun]
    cases hfound : ConfigManager.discoverProvider name w.manager.config with
    | error e => exact ⟨w', rfl, hmanager⟩
    | ok u =>
      obtain ⟨provider, hprovider⟩ := ConfigManager.discoverProvider_eq_ok hfound
      rw [← hmanager] at hprovider
      refine ⟨_, (readProvider_run name).trans (Prod.ext ?_ rfl), hmanager⟩
      exact ConfigManager.requireProvider_eq_ok hprovider

end Alone

/-! ## Calls that interleave -/

/-- The calls, and what they share. -/
abbrev DiscoveryServer := Tasks discoverySignature ConfigError Unit DiscoveryWorld

/-- What happens next. -/
inductive DiscoveryAction where
  | arrive (call : DiscoveryCall)
  | advance (i : Nat)
  /-- The client of a call is gone, and with it the call. -/
  | abandon (i : Nat)
  /-- Someone edits the files of the configuration. -/
  | edit (files : ConfigDirectory)

/-- Whether the next step is to clear the entry of a provider. -/
def clears (name : String) : DiscoveryProgram Unit → Bool
  | .call (.clearDiscovery name') _ => name' = name
  | .call .clearAll _ => true
  | _ => false

namespace DiscoveryServer

def step (env : DiscoverySurroundings) (m : DiscoveryServer) : DiscoveryAction → DiscoveryServer
  | .arrive call => { m with programs := m.programs ++ [call.program env] }
  | .advance i => m.advance (fun _ op w => some (DiscoveryWorld.handle env op w)) i
  | .abandon i => { m with programs := m.programs.set i (.ret ()) }
  | .edit files => { m with
      state := { m.state with manager := { m.state.manager with files } } }

/-- A call is about to clear the entry of the provider. -/
def clearing (m : DiscoveryServer) (name : String) : Bool :=
  m.programs.any (clears name)

/-- A server without calls, and nothing cached. -/
def start (manager : ConfigManager) : DiscoveryServer :=
  { state := { manager }, programs := [] }

end DiscoveryServer

/-- The provider is configured, and where its models are known, they were asked for at its endpoint
with its headers and credentials. -/
def DiscoveryCache.Current (environment : String → Option String) (config : ServerConfig)
    (name : String) (cache : DiscoveryCache) : Prop :=
  ∃ provider, config.providers.get? name = some provider ∧
    (cache.discovery.status = .succeeded → ∃ resolved,
      provider.resolve environment name = .ok resolved ∧
        cache.asked = some (resolved.modelsEndpoint, resolved.headers))

/-- The provider is still the one that was read; where no models are known, that it is configured
will do. -/
def StillThere (config : ServerConfig) (name : String) (original : ProviderConfig)
    (cache : DiscoveryCache) : Prop :=
  config.providers.get? name = some original ∨
    cache.discovery.status ≠ .succeeded ∧ config.providers.contains name = true

/-- **The steps that keep entries current.** An entry is written while the provider is still the one
that was read; a mutation changes no other provider that has an entry; and no call is abandoned that
is about to clear an entry. An entry that is about to be cleared may be anything. -/
def DiscoveryServer.InTime (env : DiscoverySurroundings) (m : DiscoveryServer) :
    DiscoveryAction → Prop
  | .arrive _ | .edit _ => True
  | .advance i => ∀ op k, m.programs[i]? = some (.call op k) → match op with
    | .setDiscovery name original cache =>
      StillThere m.state.manager.config name original cache ∨ m.clearing name = true
    | .mutate name operation =>
      ∀ other, other ≠ name → m.state.cache.contains other = true →
        (m.state.manager.mutate env.crates (env.fault m.state.clock)
          operation).2.config.providers.get? other =
            m.state.manager.config.providers.get? other ∨ m.clearing other = true
    | _ => True
  | .abandon i => ∀ p, m.programs[i]? = some p → ∀ name, clears name p = false

/-! ## The protocol of a call -/

/-- What a call has changed and not cleared yet. -/
inductive DiscoveryStage where
  | calm
  | mutated (name : String)
  | reloaded

namespace DiscoveryStage

/-- What was asked is what the provider says that was read. -/
def Faithful (environment : String → Option String) (name : String) (original : ProviderConfig)
    (cache : DiscoveryCache) : Prop :=
  cache.discovery.status = .succeeded → ∃ resolved,
    original.resolve environment name = .ok resolved ∧
      cache.asked = some (resolved.modelsEndpoint, resolved.headers)

def allows (environment : String → Option String) : DiscoveryStage → DiscoveryOp → Prop
  | .calm, .setDiscovery name original cache => Faithful environment name original cache
  | .calm, .clearDiscovery _ | .calm, .clearAll => False
  | .calm, _ => True
  | .mutated name, op => op = .clearDiscovery name
  | .reloaded, op => op = .clearAll

def next : DiscoveryStage → (op : DiscoveryOp) → op.Reply → DiscoveryStage
  | .calm, .mutate name _, .ok () => .mutated name
  | .calm, .reloadSnapshot, .ok () => .reloaded
  | _, _, _ => .calm

/-- Calls end with nothing left to clear. -/
abbrev Keeps (environment : String → Option String) (stage : DiscoveryStage)
    {α : Type} (p : DiscoveryProgram α) : Prop :=
  p.Follows (allows environment) next (fun stage _ => stage = .calm) stage

end DiscoveryStage

open DiscoveryStage

section Calls

variable (environment : String → Option String)

theorem readProvider_keeps (name : String) : Keeps environment .calm (readProvider name) :=
  ⟨trivial, fun _ => Program.follows_ofExcept rfl⟩

theorem askModels_keeps {α : Type} {name attemptedAt : String} {original : ProviderConfig}
    {f : DiscoveryCache → DiscoveryProgram α}
    (hf : ∀ cache, Faithful environment name original cache → Keeps environment .calm (f cache)) :
    Keeps environment .calm (askModels environment name attemptedAt original >>= f) := by
  unfold askModels
  cases hresolve : original.resolve environment name with
  | error e => exact hf _ nofun
  | ok provider =>
    refine ⟨trivial, fun r => ?_⟩
    cases r with
    | error e => exact hf _ nofun
    | ok models => exact hf _ fun _ => ⟨provider, hresolve, rfl⟩

theorem discoverProvider_keeps (name : String) :
    Keeps environment .calm (discoverProvider environment name) := by
  refine ⟨trivial, fun config => ?_⟩
  simp only [DiscoveryStage.next, Program.bind]
  split
  · rfl
  · next original _ =>
    refine iteInduction (fun _ => rfl) fun _ => ⟨trivial, fun attemptedAt => ?_⟩
    refine ⟨nofun, fun _ => askModels_keeps environment fun cache hcache => ?_⟩
    refine ⟨trivial, fun config' => ?_⟩
    simp only [DiscoveryStage.next, Program.bind]
    split
    · rfl
    · refine iteInduction (fun _ => readProvider_keeps environment name) fun _ => ?_
      exact ⟨hcache, fun _ => readProvider_keeps environment name⟩

theorem DiscoveryStage.Keeps.bind {α β : Type} {p : DiscoveryProgram α} {f : α → DiscoveryProgram β}
    (hp : Keeps environment .calm p) (hf : ∀ a, Keeps environment .calm (f a)) :
    Keeps environment .calm (p >>= f) :=
  Program.Follows.bind hp (fun stage a hstage => by
    cases hstage
    exact hf a) fun _ _ h => h

/-- After a mutation its entry is cleared. -/
theorem mutateThen_keeps (name : String) (operation : TomlTable → Except ConfigError TomlTable)
    {next : DiscoveryProgram Unit} (hnext : Keeps environment .calm next) :
    Keeps environment .calm (mutateThen name operation next) := by
  refine ⟨trivial, fun result => ?_⟩
  cases result with
  | error e => rfl
  | ok u => exact ⟨rfl, fun _ => hnext⟩

theorem reloadConfig_keeps : Keeps environment .calm reloadConfig := by
  refine ⟨trivial, fun result => ?_⟩
  cases result with
  | error e => rfl
  | ok u => exact ⟨rfl, fun _ => rfl⟩

theorem refreshModels_keeps (name : String) :
    Keeps environment .calm (refreshModels environment name) := by
  refine ⟨trivial, fun config => ?_⟩
  simp only [DiscoveryStage.next, Program.bind]
  split
  · rfl
  · refine iteInduction (fun _ => rfl) fun _ => ?_
    exact Keeps.bind environment (discoverProvider_keeps environment name)
      fun _ => readProvider_keeps environment name

theorem providerCall_keeps (env : DiscoverySurroundings) (call : ProviderCall) :
    Keeps env.environment .calm (providerCall env call) := by
  cases call with
  | create request =>
    simp only [providerCall]
    split
    · rfl
    · exact mutateThen_keeps _ _ _ (discoverProvider_keeps _ _)
  | update name request =>
    refine iteInduction (fun _ => rfl) fun _ => mutateThen_keeps _ _ _ ⟨trivial, fun config => ?_⟩
    exact iteInduction (fun _ => readProvider_keeps _ _) fun _ => discoverProvider_keeps _ _
  | delete name => exact mutateThen_keeps _ _ _ rfl
  | replaceModels name models =>
    simp only [providerCall]
    split
    · rfl
    · exact mutateThen_keeps _ _ _ (readProvider_keeps _ _)
  | clearModels name =>
    exact mutateThen_keeps _ _ _ (Keeps.bind _ (discoverProvider_keeps _ _)
      fun _ => readProvider_keeps _ _)

/-- **Every call** writes what the provider says that it read, and clears what it has changed. -/
theorem DiscoveryCall.program_keeps (env : DiscoverySurroundings) (call : DiscoveryCall) :
    Keeps env.environment .calm (call.program env) := by
  cases call with
  | discover name => exact discoverProvider_keeps _ name
  | refresh name => exact refreshModels_keeps _ name
  | provider call => exact providerCall_keeps env call
  | reload => exact reloadConfig_keeps _

end Calls

/-! ## Current caches -/

/-- Every call keeps to the protocol, and every entry is current or about to be cleared. -/
structure DiscoveryServer.Tracked (env : DiscoverySurroundings) (m : DiscoveryServer) : Prop where
  calls : ∀ p ∈ m.programs, ∃ stage, Keeps env.environment stage p
  entries : ∀ name cache, m.state.cache.get? name = some cache →
    cache.Current env.environment m.state.manager.config name ∨ m.clearing name = true

namespace DiscoveryServer

variable {env : DiscoverySurroundings} {m : DiscoveryServer}

theorem clearing_iff {name : String} : m.clearing name = true ↔
    ∃ (i : Nat) (p : DiscoveryProgram Unit), m.programs[i]? = some p ∧ clears name p = true := by
  rw [clearing, List.any_eq_true]
  constructor
  · rintro ⟨p, hp, hclears⟩
    obtain ⟨i, hi⟩ := List.mem_iff_getElem?.mp hp
    exact ⟨i, p, hi, hclears⟩
  · rintro ⟨i, p, hi, hclears⟩
    exact ⟨p, List.mem_of_getElem? hi, hclears⟩

/-- What another call is about to clear is still about to be cleared. -/
theorem clearing_set {name : String} {i : Nat} {p q : DiscoveryProgram Unit} {w : DiscoveryWorld}
    (hp : m.programs[i]? = some p) (hnot : clears name p = false)
    (h : m.clearing name = true) :
    DiscoveryServer.clearing { state := w, programs := m.programs.set i q } name = true := by
  obtain ⟨j, r, hj, hclears⟩ := clearing_iff.mp h
  refine clearing_iff.mpr ⟨j, r, ?_, hclears⟩
  have hne : i ≠ j := by
    rintro rfl
    rw [hp] at hj
    cases hj
    rw [hnot] at hclears
    cases hclears
  exact (List.getElem?_set_ne hne).trans hj

theorem clearing_new {name : String} {i : Nat} {p q : DiscoveryProgram Unit} {w : DiscoveryWorld}
    (hp : m.programs[i]? = some p) (hclears : clears name q = true) :
    DiscoveryServer.clearing { state := w, programs := m.programs.set i q } name = true :=
  clearing_iff.mpr ⟨i, q, List.getElem?_set_self (List.getElem?_eq_some_iff.mp hp).1, hclears⟩

end DiscoveryServer

theorem DiscoveryCache.Current.congr {environment : String → Option String}
    {config config' : ServerConfig} {name : String} {cache : DiscoveryCache}
    (h : cache.Current environment config name)
    (hsame : config'.providers.get? name = config.providers.get? name) :
    cache.Current environment config' name := by
  obtain ⟨provider, hprovider, hasked⟩ := h
  exact ⟨provider, hsame.trans hprovider, hasked⟩

/-- What is written while the provider is still there is current. -/
theorem StillThere.current {environment : String → Option String} {config : ServerConfig}
    {name : String} {original : ProviderConfig} {cache : DiscoveryCache}
    (h : StillThere config name original cache)
    (hfaithful : Faithful environment name original cache) :
    cache.Current environment config name := by
  rcases h with hsame | ⟨hnot, hthere⟩
  · exact ⟨original, hsame, hfaithful⟩
  · obtain ⟨provider, hprovider⟩ := (SortedMap.contains_iff _ _).mp hthere
    exact ⟨provider, hprovider, fun h => absurd h hnot⟩

namespace DiscoveryServer

variable {env : DiscoverySurroundings} {m : DiscoveryServer}

/-- A call that has changed something is about to clear it. -/
theorem clears_of_mutated {environment : String → Option String} {name : String}
    {p : DiscoveryProgram Unit} (h : Keeps environment (.mutated name) p) :
    clears name p = true := by
  cases p with
  | ret a => cases h
  | fail e => cases h
  | call op k =>
    obtain ⟨rfl, -⟩ := h
    exact decide_eq_true rfl

theorem clears_of_reloaded {environment : String → Option String} (name : String)
    {p : DiscoveryProgram Unit} (h : Keeps environment .reloaded p) : clears name p = true := by
  cases p with
  | ret a => cases h
  | fail e => cases h
  | call op k =>
    obtain ⟨rfl, -⟩ := h
    rfl

/-- A step of a call that clears nothing, and after which the entries it finds are as they were, or
are about to be cleared. -/
theorem Tracked.of_same (h : m.Tracked env) {i : Nat} {p q : DiscoveryProgram Unit}
    {w : DiscoveryWorld} (hp : m.programs[i]? = some p)
    (hnot : ∀ name, w.cache.contains name = true → clears name p = false)
    (hq : ∃ stage, Keeps env.environment stage q)
    (hcache : ∀ name cache, w.cache.get? name = some cache →
      (m.state.cache.get? name = some cache ∧
        w.manager.config.providers.get? name = m.state.manager.config.providers.get? name) ∨
      cache.Current env.environment w.manager.config name ∨ m.clearing name = true ∨
      clears name q = true) :
    DiscoveryServer.Tracked env { state := w, programs := m.programs.set i q } where
  calls r hr := by
    rcases List.mem_or_eq_of_mem_set hr with hr | rfl
    · exact h.calls r hr
    · exact hq
  entries name cache hget := by
    replace hnot := hnot name ((SortedMap.contains_iff _ _).mpr ⟨cache, hget⟩)
    rcases hcache name cache hget with ⟨hbefore, hsame⟩ | hcurrent | hclearing | hnew
    · exact (h.entries name cache hbefore).imp (fun hcurrent => hcurrent.congr hsame)
        (clearing_set hp hnot)
    · exact .inl hcurrent
    · exact .inr (clearing_set hp hnot hclearing)
    · exact .inr (clearing_new hp hnew)

theorem Tracked.advance (h : m.Tracked env) {i : Nat} (hin : m.InTime env (.advance i)) :
    (m.step env (.advance i)).Tracked env := by
  rcases hp : m.programs[i]? with _ | p
  · rwa [step, Tasks.advance, hp]
  cases p with
  | ret x => rwa [step, Tasks.advance, hp]
  | fail e => rwa [step, Tasks.advance, hp]
  | call op k =>
    have hstep : m.step env (.advance i) =
        { state := (DiscoveryWorld.handle env op m.state).2
          programs := m.programs.set i (k (DiscoveryWorld.handle env op m.state).1) } := by
      rw [step, Tasks.advance, hp]
    rw [hstep]
    obtain ⟨stage, hallowed, hrest⟩ := h.calls _ (List.mem_of_getElem? hp)
    have hnext := hrest (DiscoveryWorld.handle env op m.state).1
    have hin' := hin op k hp
    cases op with
    | snapshot =>
      exact h.of_same hp (fun _ _ => rfl) ⟨_, hnext⟩ fun name cache hget => .inl ⟨hget, rfl⟩
    | now => exact h.of_same hp (fun _ _ => rfl) ⟨_, hnext⟩ fun name cache hget => .inl ⟨hget, rfl⟩
    | discoverModels provider =>
      exact h.of_same hp (fun _ _ => rfl) ⟨_, hnext⟩ fun name cache hget => .inl ⟨hget, rfl⟩
    | setDiscovery name original cache =>
      have hfaithful : Faithful env.environment name original cache := by
        cases stage with
        | calm => exact hallowed
        | mutated name' => cases hallowed
        | reloaded => cases hallowed
      refine h.of_same hp (fun _ _ => rfl) ⟨_, hnext⟩ fun name' cache' hget => ?_
      replace hget : (m.state.cache.insert name cache).get? name' = some cache' := hget
      by_cases hname : name' = name
      · rw [hname, SortedMap.get?_insert_self] at hget
        cases hget
        rw [hname]
        exact .inr (hin'.imp (fun hthere => hthere.current hfaithful) .inl)
      · rw [SortedMap.get?_insert_of_ne _ _ hname] at hget
        exact .inl ⟨hget, rfl⟩
    | clearDiscovery name =>
      have hget : ∀ name', (m.state.cache.erase name).get? name' =
          if name' = name then none else m.state.cache.get? name' := SortedMap.get?_erase _ _
      refine h.of_same hp (fun name' hthere => ?_) ⟨_, hnext⟩ fun name' cache hfound => .inl ?_
      · obtain ⟨cache, hfound⟩ := (SortedMap.contains_iff _ _).mp hthere
        rw [show (DiscoveryWorld.handle env (.clearDiscovery name) m.state).2.cache =
          m.state.cache.erase name from rfl, hget] at hfound
        refine decide_eq_false fun heq => ?_
        rw [if_pos heq.symm] at hfound
        cases hfound
      · replace hfound : (m.state.cache.erase name).get? name' = some cache := hfound
        rw [hget] at hfound
        split at hfound
        · cases hfound
        · exact ⟨hfound, rfl⟩
    | clearAll =>
      refine h.of_same hp (fun name hthere => ?_) ⟨_, hnext⟩ fun name cache hfound => ?_
      · cases hthere
      · cases hfound
    | mutate name operation =>
      cases hresult : (DiscoveryWorld.handle env (.mutate name operation) m.state).1 with
      | error e =>
        have hsame := ConfigManager.mutate_error_config hresult
        exact h.of_same hp (fun _ _ => rfl) ⟨_, hresult ▸ hnext⟩ fun name' cache hget =>
          .inl ⟨hget, congrArg (fun config => config.providers.get? name') hsame⟩
      | ok u =>
        rw [hresult] at hnext
        have hclears : clears name (k (.ok u)) = true := by
          cases stage with
          | calm => exact clears_of_mutated hnext
          | mutated name' => cases hallowed
          | reloaded => cases hallowed
        refine h.of_same hp (fun _ _ => rfl) ⟨_, hnext⟩ fun name' cache hget => ?_
        by_cases hname : name' = name
        · exact .inr (.inr (.inr (hname ▸ hclears)))
        · have hthere := (SortedMap.contains_iff m.state.cache name').mpr ⟨cache, hget⟩
          rcases hin' name' hname hthere with hsame | hclear
          · exact .inl ⟨hget, hsame⟩
          · exact .inr (.inr (.inl hclear))
    | reloadSnapshot =>
      cases hresult : (DiscoveryWorld.handle env .reloadSnapshot m.state).1 with
      | error e =>
        have hsame := ConfigManager.reload_error_config hresult
        exact h.of_same hp (fun _ _ => rfl) ⟨_, hresult ▸ hnext⟩ fun name' cache hget =>
          .inl ⟨hget, congrArg (fun config => config.providers.get? name') hsame⟩
      | ok u =>
        rw [hresult] at hnext
        have hclears : ∀ name, clears name (k (.ok u)) = true := by
          intro name
          cases stage with
          | calm => exact clears_of_reloaded name hnext
          | mutated name' => cases hallowed
          | reloaded => cases hallowed
        exact h.of_same hp (fun _ _ => rfl) ⟨_, hnext⟩ fun name' cache _ =>
          .inr (.inr (.inr (hclears name')))

/-- Whatever happens in time keeps the calls and the entries in order. -/
theorem Tracked.step (h : m.Tracked env) {action : DiscoveryAction} (hin : m.InTime env action) :
    (m.step env action).Tracked env := by
  cases action with
  | arrive call =>
    refine ⟨fun p hp => ?_, fun name cache hget => (h.entries name cache hget).imp_right ?_⟩
    · rcases List.mem_append.mp hp with hp | hp
      · exact h.calls p hp
      · rw [List.mem_singleton.mp hp]
        exact ⟨.calm, call.program_keeps env⟩
    · intro hclearing
      exact List.any_append.trans (by rw [show m.programs.any (clears name) = true from hclearing,
        Bool.true_or])
  | advance i => exact h.advance hin
  | abandon i =>
    rcases hp : m.programs[i]? with _ | p
    · have hsame : m.programs.set i (.ret ()) = m.programs :=
        List.set_eq_of_length_le (List.getElem?_eq_none_iff.mp hp)
      refine ⟨fun p hp => h.calls p (hsame ▸ hp), fun name cache hget => ?_⟩
      exact (h.entries name cache hget).imp_right fun hclearing => by
        rw [DiscoveryServer.step, clearing, hsame]
        exact hclearing
    · exact h.of_same hp (fun name _ => hin p hp name) ⟨.calm, rfl⟩
        fun name cache hget => .inl ⟨hget, rfl⟩
  | edit files => exact ⟨h.calls, h.entries⟩

theorem Tracked.start (manager : ConfigManager) : (start manager).Tracked env where
  calls p hp := by cases hp
  entries name cache hget := by cases hget

/-- With no call under way nothing is about to be cleared. -/
theorem not_clearing_of_ended (hended : ∀ i, m.Ended i) (name : String) :
    m.clearing name = false := by
  rw [Bool.eq_false_iff]
  intro hclearing
  obtain ⟨i, p, hp, hclears⟩ := clearing_iff.mp hclearing
  cases p with
  | ret x => cases hclears
  | fail e => cases hclears
  | call op k => exact hended i op k hp

end DiscoveryServer

/-- **Discovery is not stale** after a run all of whose steps are in time: whatever calls came, in
whatever order their steps were taken and whatever failed, with no call under way every entry is of
a provider that is configured, and the models it has were asked for at the endpoint of that provider
with its headers and credentials. -/
theorem discovery_current (env : DiscoverySurroundings) (manager : ConfigManager)
    (actions : List DiscoveryAction)
    (hin : Schedule.Along (DiscoveryServer.step env) (DiscoveryServer.InTime env)
      (DiscoveryServer.start manager) actions) :
    let m := Schedule.run (DiscoveryServer.step env) (DiscoveryServer.start manager) actions
    (∀ i, m.Ended i) → ∀ name cache, m.state.cache.get? name = some cache →
      cache.Current env.environment m.state.manager.config name := by
  intro m hended name cache hget
  have htracked : m.Tracked env := Schedule.Along.invariant
    (I := fun m => DiscoveryServer.Tracked env m) (fun h hin => h.step hin)
    (DiscoveryServer.Tracked.start manager) hin
  refine (htracked.entries name cache hget).resolve_right fun hclearing => ?_
  rw [DiscoveryServer.not_clearing_of_ended hended name] at hclearing
  cases hclearing

/-! ## A discovery on its own, and one that is late -/

/-- The crates on a file that is left empty, too. -/
def emptiedCrates : ConfigCrates :=
  { ConfigManager.localCrates with
    fromToml := fun text =>
      if text = "" then .ok ({} : ServerConfig).toTomlConfig
      else ConfigManager.localCrates.fromToml text
    documentText := fun document => match TomlTable.get? document "providers" with
      | some (.table [] _) => ""
      | _ => ConfigManager.localToml }

/-- A provider that lists one model. -/
def discoverySurroundings : DiscoverySurroundings where
  crates := emptiedCrates
  environment _ := none
  fault _ := none
  now _ := "2026-01-01T00:00:00Z"
  models _ _ := .ok [⟨"small", .null⟩]

/-- What is known of the provider afterwards. -/
def smallCache : DiscoveryCache where
  models := ["small"]
  metadata := (∅ : SortedMap String Json).insert "small" .null
  discovery := ⟨.succeeded, some "2026-01-01T00:00:00Z", none⟩
  asked := some ("http://localhost:11434/v1/models", ∅)

/-- A discovery on its own. -/
def soleDiscovery : List DiscoveryAction :=
  .arrive (.discover "local") :: List.replicate 7 (.advance 0)

open ConfigManager (localManager localConfig) in
theorem discovery_current_sole :
    smallCache.Current discoverySurroundings.environment localConfig "local" := by
  have hin : Schedule.Along (DiscoveryServer.step discoverySurroundings)
      (DiscoveryServer.InTime discoverySurroundings)
      (DiscoveryServer.start (localManager [] localConfig)) soleDiscovery := by
    refine ⟨trivial, ?_, ?_, ?_, ?_, ?_, ?_, ?_, trivial⟩ <;> intro op k h <;> cases h
    · trivial
    · trivial
    · exact .inl (.inl rfl)
    · trivial
    · trivial
    · exact .inl (.inl rfl)
    · trivial
  exact discovery_current discoverySurroundings (localManager [] localConfig) soleDiscovery hin
    (Tasks.ended_iff_all.mpr (by decide +kernel)) "local" smallCache (by decide +kernel)

/-- A provider is deleted after a discovery has compared it, and before it writes. -/
def lateDiscovery : List DiscoveryAction :=
  [.arrive (.discover "local"), .advance 0, .advance 0, .advance 0, .advance 0, .advance 0,
    .arrive (.provider (.delete "local")), .advance 1, .advance 1, .advance 0, .advance 0]

open ConfigManager (localManager localConfig) in
theorem discovery_stale :
    let m := Schedule.run (DiscoveryServer.step discoverySurroundings)
      (DiscoveryServer.start (localManager [] localConfig)) lateDiscovery
    (∀ i, m.Ended i) ∧ m.state.manager.config.providers.get? "local" = none ∧
      m.state.cache.get? "local" = some smallCache ∧
      ¬smallCache.Current discoverySurroundings.environment m.state.manager.config "local" := by
  have hgone : (Schedule.run (DiscoveryServer.step discoverySurroundings)
      (DiscoveryServer.start (localManager [] localConfig))
        lateDiscovery).state.manager.config.providers.get? "local" = none := by
    decide +kernel
  refine ⟨Tasks.ended_iff_all.mpr (by decide +kernel), hgone, by decide +kernel, ?_⟩
  rintro ⟨provider, hprovider, -⟩
  rw [hgone] at hprovider
  cases hprovider

end Piqo
