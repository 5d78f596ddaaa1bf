import PiqoServer.Storage.Operations

/-!
# Configuration

The part of `piqo-server/src/config.rs` that decides what a run may do and what is sent for it:
agents with their permissions, the body layers, and the limits of delegation. The maps of the
configuration are only looked up, never iterated, by what is modelled here.

## Main definitions

* `PermissionSetting`, `AgentPermissions`: what an agent may do, with their JSON form
* `PiqoConfig.agent`: an agent as its Markdown definition and its TOML override give it
* `PiqoConfig.bodyLayers`, `mergeRequestBodies`: the layers of a provider request
* `RunRequest`, `DelegationRequest`: what a run and a delegation ask for
* `permissionSetting`, `mostRestrictivePermission`: the setting for a tool, and of two settings

## Main results

* `AgentPermissions.ofJson_toJson`, `RunRequest.ofJson_toJson`: round trips
* `mergeRequestBodies_bodyLayers`: the layers always merge
-/

namespace Piqo

/-! ## Permissions -/

inductive PermissionSetting where
  | allow | ask | deny
  deriving DecidableEq, Repr

namespace PermissionSetting

def toJson : PermissionSetting → Json
  | .allow => .str "allow"
  | .ask => .str "ask"
  | .deny => .str "deny"

def ofJson? : Json → Option PermissionSetting
  | .str "allow" => some .allow
  | .str "ask" => some .ask
  | .str "deny" => some .deny
  | _ => none

@[simp] theorem ofJson?_toJson (p : PermissionSetting) : ofJson? p.toJson = some p := by
  cases p <;> rfl

/-- An optional setting as a field: absent and `null` are `None`. -/
def ofField? : Option Json → Option (Option PermissionSetting)
  | none | some .null => some none
  | some v => (ofJson? v).map some

def toField : Option PermissionSetting → Json
  | none => .null
  | some p => p.toJson

@[simp] theorem ofField?_toField (p : Option PermissionSetting) :
    ofField? (some (toField p)) = some p := by
  rcases p with _ | _ | _ | _ <;> rfl

end PermissionSetting

/-- What an agent may do with the native tools, with MCP tools, and with tools by name. -/
structure AgentPermissions where
  read : Option PermissionSetting := none
  write : Option PermissionSetting := none
  bash : Option PermissionSetting := none
  mcp : Option PermissionSetting := none
  tools : SortedMap String PermissionSetting := ∅
  deriving DecidableEq

namespace AgentPermissions

/-- The settings by tool name; a later field replaces an earlier one. -/
def toolsOfFields? : List (String × Json) → Option (SortedMap String PermissionSetting)
  | [] => some ∅
  | (name, v) :: fields => do
    let setting ← PermissionSetting.ofJson? v
    let tools ← toolsOfFields? fields
    return if tools.contains name then tools else tools.insert name setting

def toolsOfField? : Option Json → Option (SortedMap String PermissionSetting)
  | none => some ∅
  | some (.obj fields) => toolsOfFields? fields
  | some _ => none

def ofFields? (read write bash mcp tools : Option Json) : Option AgentPermissions := do
  return {
    read := ← PermissionSetting.ofField? read
    write := ← PermissionSetting.ofField? write
    bash := ← PermissionSetting.ofField? bash
    mcp := ← PermissionSetting.ofField? mcp
    tools := ← toolsOfField? tools }

/-- `from_value`; unknown fields are denied, and serde also reads a struct from an array. -/
def ofJson? : Json → Option AgentPermissions
  | .obj fields =>
    if fields.all fun f => f.1 ∈ ["read", "write", "bash", "mcp", "tools"] then
      ofFields? (SortedMap.lookup "read" fields) (SortedMap.lookup "write" fields)
        (SortedMap.lookup "bash" fields) (SortedMap.lookup "mcp" fields)
        (SortedMap.lookup "tools" fields)
    else none
  | .arr [read, write, bash, mcp] => ofFields? (some read) (some write) (some bash) (some mcp) none
  | .arr [read, write, bash, mcp, tools] =>
    ofFields? (some read) (some write) (some bash) (some mcp) (some tools)
  | _ => none

/-- `to_value`. -/
def toJson (p : AgentPermissions) : Json :=
  .obj [
    ("bash", PermissionSetting.toField p.bash),
    ("mcp", PermissionSetting.toField p.mcp),
    ("read", PermissionSetting.toField p.read),
    ("tools", .obj (p.tools.entries.map fun e => (e.1, e.2.toJson))),
    ("write", PermissionSetting.toField p.write)]

theorem toolsOfFields?_entries {es : List (String × PermissionSetting)}
    (h : es.Pairwise fun a b => a.1 < b.1) :
    toolsOfFields? (es.map fun e => (e.1, e.2.toJson)) = some ⟨es, h⟩ := by
  induction es with
  | nil => rfl
  | cons e es ih =>
    obtain ⟨hhead, htail⟩ := List.pairwise_cons.mp h
    have hnone : (⟨es, htail⟩ : SortedMap String PermissionSetting).contains e.1 = false := by
      rw [SortedMap.contains_eq_false_iff]
      exact SortedMap.lookup_eq_none_of_lt hhead
    have hinsert : SortedMap.insertEntry e.1 e.2 es = e :: es := by
      cases es with
      | nil => rfl
      | cons f fs => rw [SortedMap.insertEntry, if_pos (hhead f List.mem_cons_self)]
    rw [List.map_cons, toolsOfFields?, ih htail]
    simp [hnone, SortedMap.insert, hinsert]

/-- A permission table survives its JSON form. -/
theorem ofJson_toJson (p : AgentPermissions) : ofJson? p.toJson = some p := by
  have hlookup : ofJson? p.toJson =
      ofFields? (some (PermissionSetting.toField p.read)) (some (PermissionSetting.toField p.write))
        (some (PermissionSetting.toField p.bash)) (some (PermissionSetting.toField p.mcp))
        (some (.obj (p.tools.entries.map fun e => (e.1, e.2.toJson)))) := rfl
  rw [hlookup, ofFields?, toolsOfField?, toolsOfFields?_entries p.tools.sorted]
  simp

/-- `merge_permissions`. -/
def merge (target : AgentPermissions) : Option AgentPermissions → AgentPermissions
  | none => target
  | some p => {
      read := p.read.or target.read
      write := p.write.or target.write
      bash := p.bash.or target.bash
      mcp := p.mcp.or target.mcp
      tools := p.tools.entries.foldl (fun tools e => tools.insert e.1 e.2) target.tools }

end AgentPermissions

/-- The setting that decides about a tool. -/
def permissionSetting (permissions : AgentPermissions) (toolName : String) :
    Option PermissionSetting :=
  match toolName with
  | "read" => permissions.read
  | "write" | "edit" => permissions.write
  | "bash" => permissions.bash
  | _ => (permissions.tools.get? toolName).or permissions.mcp

def mostRestrictivePermission : PermissionSetting → PermissionSetting → PermissionSetting
  | .deny, _ | _, .deny => .deny
  | .ask, _ | _, .ask => .ask
  | .allow, .allow => .allow

/-! ## The configuration -/

structure BodyLayer where
  body : Json := .null
  maxModelTurns : Nat := 32
  deriving DecidableEq

structure AgentConfigOverride where
  description : Option String := none
  provider : Option String := none
  model : Option String := none
  instructions : Option String := none
  permissions : Option AgentPermissions := none
  body : Json := .null
  deriving DecidableEq

structure AgentDefinition where
  id : String
  description : Option String := none
  provider : Option String := none
  model : Option String := none
  instructions : Option String := none
  permissions : AgentPermissions := {}
  markdownBody : Json := .null
  tomlBody : Json := .null
  deriving DecidableEq

/-- Hard limits for managed child-agent work. -/
structure OrchestrationConfig where
  maxDepth : Nat := 1
  maxConcurrentPerTree : Nat := 2
  maxConcurrentGlobal : Nat := 4
  maxChildModelTurns : Nat := 32
  maxChildDurationSeconds : Nat := 600
  maxTreeDurationSeconds : Nat := 1800
  maxTreeTokens : Nat := 262144
  maxContextBytes : Nat := 65536
  maxContextMessageIds : Nat := 32
  maxResultBytes : Nat := 65536
  deriving DecidableEq

/-- How the earlier part of a conversation is summarised. -/
structure CompactionConfig where
  strategy : CompactionStrategy := .llm
  summaryProvider : Option String := none
  summaryModel : Option String := none
  summaryBody : Json := .null
  summaryMaxOutputTokens : Nat := 2048
  maxRetries : Nat := 1
  deriving DecidableEq

/-- When a conversation is compacted; the ratios are exact. -/
structure ContextConfig where
  fallbackContextWindowTokens : Nat := 131072
  fallbackOutputReserveTokens : Nat := 32768
  triggerRatio : Rat := 4 / 5
  targetRatio : Rat := 3 / 5
  compaction : CompactionConfig := {}
  deriving DecidableEq

structure ModelContextConfig where
  contextWindowTokens : Option Nat := none
  outputReserveTokens : Option Nat := none
  deriving DecidableEq

/-- Where a provider's model metadata has the limits of a model, and what is configured instead. -/
structure ProviderContextConfig where
  contextWindowPointer : Option String := none
  outputLimitPointer : Option String := none
  models : SortedMap String ModelContextConfig := ∅
  deriving DecidableEq

structure PiqoConfig where
  defaults : BodyLayer := {}
  /-- `defaults.max_model_turns`. -/
  maxModelTurns : Nat := 32
  models : SortedMap String BodyLayer := ∅
  agents : SortedMap String AgentConfigOverride := ∅
  variants : SortedMap String BodyLayer := ∅
  orchestration : OrchestrationConfig := {}
  markdownAgents : SortedMap String AgentDefinition := ∅
  maxProviderRequestBytes : Nat := 4 * 1024 * 1024
  context : ContextConfig := {}
  providerContexts : SortedMap String ProviderContextConfig := ∅
  deriving DecidableEq

/-- A body that is not an object counts as the empty object. -/
def normalizeBody : Json → Json
  | .obj fields => .obj fields
  | _ => .obj []

namespace PiqoConfig

/-- The agent `name`, or the text of the error when it is not configured. -/
def agent (config : PiqoConfig) (name : String) : Except String AgentDefinition :=
  let agent := (config.markdownAgents.get? name).getD { id := name }
  match config.agents.get? name with
  | some override => .ok {
      agent with
      description := override.description.or agent.description
      provider := override.provider.or agent.provider
      model := override.model.or agent.model
      instructions := override.instructions.or agent.instructions
      permissions := agent.permissions.merge override.permissions
      tomlBody := override.body }
  | none =>
    if config.markdownAgents.contains name then .ok agent
    else .error s!"agent {name} is not configured"

/-- The body layers of a request, from the lowest to the highest precedence. -/
def bodyLayers (config : PiqoConfig) (model : String) (agent variant : Option String)
    (request : Json) : List Json :=
  [normalizeBody config.defaults.body] ++
  (config.models.get? model).toList.map (normalizeBody ·.body) ++
  (match agent with
    | none => []
    | some name => match config.agent name with
      | .error _ => []
      | .ok agent =>
        (if config.markdownAgents.contains name then [normalizeBody agent.markdownBody] else []) ++
        (if config.agents.contains name then [normalizeBody agent.tomlBody] else [])) ++
  ((variant.bind config.variants.get?).toList.map (normalizeBody ·.body)) ++
  [normalizeBody request]

/-- The part of `validate` that is about the context. -/
def contextValid (config : PiqoConfig) : Bool :=
  let context := config.context
  decide (context.fallbackContextWindowTokens ≠ 0 ∧ context.fallbackOutputReserveTokens ≠ 0 ∧
    context.fallbackOutputReserveTokens < context.fallbackContextWindowTokens ∧
    (0 < context.targetRatio ∧ context.targetRatio < context.triggerRatio ∧
      context.triggerRatio < 1) ∧
    context.compaction.summaryMaxOutputTokens ≠ 0)

end PiqoConfig

/-! ## Context budgets -/

structure ResolvedContextBudget where
  contextWindowTokens : Nat
  outputReserveTokens : Nat
  deriving DecidableEq

/-- A positive limit that the metadata of a model has where the pointer says. -/
def metadataLimit (metadata : Option Json) (pointer : Option String) : Option Nat :=
  ((pointer.bind fun pointer => metadata.bind (·.pointer pointer)).bind Json.asU64?).filter (0 < ·)

/-- The limits of a model: from its metadata, else as configured, else the fallback. -/
def PiqoConfig.contextBudget (config : PiqoConfig) (providerName model : String)
    (metadata : Option Json) : Except String ResolvedContextBudget :=
  match config.providerContexts.get? providerName with
  | none => .error s!"provider {providerName} is not configured"
  | some provider =>
    let configured := provider.models.get? model
    let contextWindowTokens := ((metadataLimit metadata provider.contextWindowPointer).or
      (configured.bind (·.contextWindowTokens))).getD config.context.fallbackContextWindowTokens
    let outputReserveTokens := ((metadataLimit metadata provider.outputLimitPointer).or
      (configured.bind (·.outputReserveTokens))).getD config.context.fallbackOutputReserveTokens
    if contextWindowTokens ≤ outputReserveTokens then
      .error ("invalid provider configuration: context output reserve exceeds context window for " ++
        providerName ++ "/" ++ model)
    else .ok { contextWindowTokens, outputReserveTokens }

theorem PiqoConfig.contextBudget_lt {config : PiqoConfig} {providerName model : String}
    {metadata : Option Json} {budget : ResolvedContextBudget}
    (h : config.contextBudget providerName model metadata = .ok budget) :
    budget.outputReserveTokens < budget.contextWindowTokens := by
  unfold contextBudget at h
  split at h
  · cases h
  · obtain ⟨hlt, heq⟩ := Except.ite_error_eq_ok.mp h
    cases heq
    exact Nat.not_le.mp hlt

/-! ## Merging bodies -/

/-- Put the fields of a layer over those merged so far. -/
def mergeFields (merged layer : List (String × Json)) : List (String × Json) :=
  layer.foldl (fun fs f => SortedMap.insertEntry f.1 f.2 fs) merged

def mergeLayers (index : Nat) (merged : List (String × Json)) :
    List Json → Except String (List (String × Json))
  | [] => .ok merged
  | .obj fields :: layers => mergeLayers (index + 1) (mergeFields merged fields) layers
  | _ :: _ => .error s!"provider body layer {index} is not a JSON object"

/-- Merge layers from the lowest to the highest precedence. -/
def mergeRequestBodies (layers : List Json) : Except String Json :=
  (mergeLayers 0 [] layers).map .obj

theorem lookup_mergeFields_isSome (key : String) (merged layer : List (String × Json)) :
    (SortedMap.lookup key (mergeFields merged layer)).isSome =
      ((SortedMap.lookup key layer).isSome || (SortedMap.lookup key merged).isSome) := by
  induction layer generalizing merged with
  | nil => rfl
  | cons f fs ih =>
    have hstep : mergeFields merged (f :: fs) =
        mergeFields (SortedMap.insertEntry f.1 f.2 merged) fs := rfl
    rw [hstep, ih, SortedMap.lookup_insertEntry, SortedMap.lookup]
    by_cases hkey : key = f.1 <;> simp [hkey]

/-- Layers that are objects merge, and the result has the keys that some layer has. -/
theorem mergeLayers_objects {layers : List Json} (h : ∀ layer ∈ layers, ∃ fields, layer = .obj fields)
    (index : Nat) (merged : List (String × Json)) :
    ∃ fields, mergeLayers index merged layers = .ok fields ∧
      ∀ key, (SortedMap.lookup key fields).isSome ↔
        (SortedMap.lookup key merged).isSome ∨ ∃ layer ∈ layers, (layer.get key).isSome := by
  induction layers generalizing index merged with
  | nil => exact ⟨merged, rfl, by simp⟩
  | cons layer layers ih =>
    obtain ⟨layerFields, rfl⟩ := h layer List.mem_cons_self
    obtain ⟨fields, hmerge, hkeys⟩ := ih (fun l hl => h l (List.mem_cons_of_mem _ hl)) (index + 1)
      (mergeFields merged layerFields)
    refine ⟨fields, hmerge, fun key => ?_⟩
    rw [hkeys, lookup_mergeFields_isSome, Bool.or_eq_true, List.exists_mem_cons_iff]
    have hget : (Json.obj layerFields).get key = SortedMap.lookup key layerFields := rfl
    rw [hget]
    tauto

/-! ## Requests -/

structure RunRequest where
  provider : String
  model : String
  input : Json
  agent : Option String
  variant : Option String
  body : Json
  deriving DecidableEq

/-- An optional string as a field: absent and `null` are `None`. -/
def optionalString? : Option Json → Option (Option String)
  | none | some .null => some none
  | some (.str s) => some (some s)
  | some _ => none

def stringField : Option String → Json
  | none => .null
  | some s => .str s

namespace RunRequest

def ofFields? (provider model input agent variant body : Option Json) : Option RunRequest := do
  return {
    provider := ← (← provider).asStr?
    model := ← (← model).asStr?
    input := ← input
    agent := ← optionalString? agent
    variant := ← optionalString? variant
    body := Json.ofOption body }

/-- `from_value`; serde also reads a struct from an array. -/
def ofJson? : Json → Option RunRequest
  | .obj fields =>
    ofFields? (SortedMap.lookup "provider" fields) (SortedMap.lookup "model" fields)
      (SortedMap.lookup "input" fields) (SortedMap.lookup "agent" fields)
      (SortedMap.lookup "variant" fields) (SortedMap.lookup "body" fields)
  | .arr [provider, model, input, agent, variant] =>
    ofFields? (some provider) (some model) (some input) (some agent) (some variant) none
  | .arr [provider, model, input, agent, variant, body] =>
    ofFields? (some provider) (some model) (some input) (some agent) (some variant) (some body)
  | _ => none

/-- `to_value`. -/
def toJson (r : RunRequest) : Json :=
  .obj [
    ("agent", stringField r.agent),
    ("body", r.body),
    ("input", r.input),
    ("model", .str r.model),
    ("provider", .str r.provider),
    ("variant", stringField r.variant)]

theorem optionalString?_stringField (s : Option String) :
    optionalString? (some (stringField s)) = some s := by
  cases s <;> rfl

theorem ofJson_toJson (r : RunRequest) : ofJson? r.toJson = some r := by
  have hlookup : ofJson? r.toJson =
      ofFields? (some (.str r.provider)) (some (.str r.model)) (some r.input)
        (some (stringField r.agent)) (some (stringField r.variant)) (some r.body) := rfl
  rw [hlookup, ofFields?, optionalString?_stringField, optionalString?_stringField]
  rfl

/-- The agent a request runs as where none is named. -/
def agentId (r : RunRequest) : String := r.agent.getD "assistant"

/-- Whether the caller brings its own tools. -/
def ownTools (r : RunRequest) : Bool := (r.body.get "tools").isSome

end RunRequest

structure DelegationRequest where
  agent : String
  task : String
  contextMessageIds : List String
  deriving DecidableEq

namespace DelegationRequest

def ofFields? (agent task contextMessageIds : Option Json) : Option DelegationRequest := do
  return {
    agent := ← (← agent).asStr?
    task := ← (← task).asStr?
    contextMessageIds := ← match contextMessageIds with
      | some (.arr items) => items.mapM Json.asStr?
      | _ => none }

/-- `from_value`; unknown fields are denied, and serde also reads a struct from an array. -/
def ofJson? : Json → Option DelegationRequest
  | .obj fields =>
    if fields.all fun f => f.1 ∈ ["agent", "task", "context_message_ids"] then
      ofFields? (SortedMap.lookup "agent" fields) (SortedMap.lookup "task" fields)
        (SortedMap.lookup "context_message_ids" fields)
    else none
  | .arr [agent, task, ids] => ofFields? (some agent) (some task) (some ids)
  | _ => none

end DelegationRequest

/-! ## Layers always merge -/

theorem asObject_normalizeBody (v : Json) :
    normalizeBody v = .obj ((v.asObject?).getD []) := by
  cases v <;> rfl

theorem bodyLayers_objects (config : PiqoConfig) (model : String) (agent variant : Option String)
    (request : Json) :
    ∀ layer ∈ config.bodyLayers model agent variant request, ∃ fields, layer = .obj fields := by
  intro layer hlayer
  have hbody : ∀ v, ∃ fields, normalizeBody v = .obj fields := fun v => ⟨_, asObject_normalizeBody v⟩
  simp only [PiqoConfig.bodyLayers, List.mem_append, List.mem_singleton, List.mem_map] at hlayer
  rcases hlayer with (((rfl | ⟨_, _, rfl⟩) | hagent) | ⟨_, _, rfl⟩) | rfl
  · exact hbody _
  · exact hbody _
  · cases agent with
    | none => simp at hagent
    | some name =>
      cases hname : config.agent name with
      | error e => simp [hname] at hagent
      | ok definition =>
        simp only [hname, List.mem_append] at hagent
        rcases hagent with hagent | hagent
        · split at hagent
          · rw [List.mem_singleton.mp hagent]; exact hbody _
          · simp at hagent
        · split at hagent
          · rw [List.mem_singleton.mp hagent]; exact hbody _
          · simp at hagent
  · exact hbody _
  · exact hbody _

/-- **The layers of a request always merge**; the body has the keys that some layer has. -/
theorem mergeRequestBodies_bodyLayers (config : PiqoConfig) (model : String)
    (agent variant : Option String) (request : Json) :
    ∃ fields, mergeRequestBodies (config.bodyLayers model agent variant request) =
        .ok (.obj fields) ∧
      ∀ key, (SortedMap.lookup key fields).isSome ↔
        ∃ layer ∈ config.bodyLayers model agent variant request, (layer.get key).isSome := by
  obtain ⟨fields, hmerge, hkeys⟩ :=
    mergeLayers_objects (bodyLayers_objects config model agent variant request) 0 []
  refine ⟨fields, by rw [mergeRequestBodies, hmerge]; rfl, fun key => ?_⟩
  rw [hkeys]
  simp [SortedMap.lookup]

end Piqo
