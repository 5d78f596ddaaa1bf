import PiqoServer.Server.Runs

/-!
# Classification and advertisement

A run offers tools in the body of its provider request; a call that comes back is classified by
`is_native_call`, which decides anew from the configuration, the session and the request. The two
agree on a tool unless the tool would be executed natively and yet the server offered nothing:
because some layer of the body brought its own tools, or because the request names no agent.

## Main definitions

* `Advertised`: the server itself put a definition of the tool into the request
* `classifiedNative`: the answer of `isNativeCall` as a function
* `nativeSettingOf`: the setting that decides about native execution
* `Unambiguous`: where classification and advertisement must agree

## Main results

* `isNativeCall_run`: what `isNativeCall` answers
* `buildBody_advertised`: what the body advertises
* `isNativeCall_iff_advertised`: they agree exactly on the unambiguous inputs
* `isNativeCall_unadvertised`: a shell command the server never offered
-/

namespace Piqo

/-! ## Advertisement -/

/-- No layer of the body brings its own tools. -/
def NoLayerTools (config : PiqoConfig) (request : RunRequest) : Prop :=
  ∀ layer ∈ config.bodyLayers request.model request.agent request.variant request.body,
    layer.get "tools" = none

/-- The server itself put a definition of `toolName` into the `tools` of the body. -/
def Advertised (config : PiqoConfig) (protocol : ProviderProtocol) (request : RunRequest)
    (body : Json) (toolName : String) : Prop :=
  NoLayerTools config request ∧ ∃ definitions, body.get "tools" = some (.arr definitions) ∧
    ∃ definition ∈ definitions, definitionName protocol definition = some toolName

section Body

variable {config : PiqoConfig} {protocol : ProviderProtocol} {request : RunRequest}
  {p : SessionProjection} {nativeTools : List NativeTool} {mcpTools : List McpToolDefinition}
  {body : Json}

theorem lookup_harnessFields_tools (fields : List (String × Json)) :
    SortedMap.lookup "tools" (harnessFields protocol request nativeTools mcpTools fields) =
      if nativeTools ≠ [] ∨ mcpTools ≠ [] then
        some ((SortedMap.lookup "tools" fields).getD (.arr
          (nativeToolDefinitions protocol nativeTools ++ mcpToolDefinitions protocol mcpTools)))
      else SortedMap.lookup "tools" fields := by
  unfold harnessFields
  split
  · rw [Json.lookup_orInsert, if_pos rfl, Json.lookup_orInsert, if_neg (by decide),
      Json.lookup_orInsert, if_neg (by decide)]
  · rw [Json.lookup_orInsert, if_neg (by decide), Json.lookup_orInsert, if_neg (by decide)]

theorem transcriptField_key {instructions : Option String} {key : String} {transcript : Json}
    (h : transcriptField protocol p instructions = some (key, transcript)) : "tools" ≠ key := by
  unfold transcriptField at h
  cases protocol with
  | chatCompletions =>
    obtain ⟨items, -, h⟩ := Option.map_eq_some_iff.mp h
    cases h
    decide
  | responses =>
    cases h
    decide

/-- What the body has under `tools`. -/
theorem buildBody_tools
    (h : buildBody config protocol request p nativeTools mcpTools = .ok body) :
    ∃ fields, mergeRequestBodies (config.bodyLayers request.model request.agent request.variant
        request.body) = .ok (.obj fields) ∧
      body.get "tools" = if nativeTools ≠ [] ∨ mcpTools ≠ [] then
        some ((SortedMap.lookup "tools" fields).getD (.arr
          (nativeToolDefinitions protocol nativeTools ++ mcpToolDefinitions protocol mcpTools)))
      else SortedMap.lookup "tools" fields := by
  obtain ⟨fields, instructions, key, transcript, hmerge, -, hfield, rfl⟩ := buildBody_eq_ok h
  refine ⟨fields, hmerge, ?_⟩
  change SortedMap.lookup "tools" (Json.orInsert key transcript _) = _
  rw [Json.lookup_orInsert, if_neg (transcriptField_key hfield), lookup_harnessFields_tools]

/-- **What the body advertises**: the offered tools, where no layer brings its own. -/
theorem buildBody_advertised (toolName : String)
    (h : buildBody config protocol request p nativeTools mcpTools = .ok body) :
    Advertised config protocol request body toolName ↔ NoLayerTools config request ∧
      (toolName ∈ nativeTools.map NativeTool.name ∨ toolName ∈ mcpTools.map (·.name)) := by
  refine and_congr_right fun hlayers => ?_
  obtain ⟨fields, hmerge, hbody⟩ := buildBody_tools h
  obtain ⟨fields', hmerge', hkeys⟩ := mergeRequestBodies_bodyLayers config request.model
    request.agent request.variant request.body
  cases hmerge.symm.trans hmerge'
  have hnone : SortedMap.lookup "tools" fields = none := by
    rw [← Option.not_isSome_iff_eq_none, hkeys]
    rintro ⟨layer, hlayer, hsome⟩
    rw [hlayers layer hlayer] at hsome
    cases hsome
  rw [hbody, hnone]
  constructor
  · rintro ⟨definitions, hdefinitions, definition, hmem, hname⟩
    split at hdefinitions
    · cases hdefinitions
      rcases List.mem_append.mp hmem with hmem | hmem
      · obtain ⟨tool, htool, rfl⟩ := List.mem_map.mp hmem
        rw [definitionName_toolDefinition, Option.some.injEq] at hname
        exact .inl (List.mem_map.mpr ⟨tool, htool, hname⟩)
      · obtain ⟨tool, htool, rfl⟩ := List.mem_map.mp hmem
        rw [definitionName_toolDefinition, Option.some.injEq] at hname
        exact .inr (List.mem_map.mpr ⟨tool, htool, hname⟩)
    · cases hdefinitions
  · intro hoffered
    have hne : nativeTools ≠ [] ∨ mcpTools ≠ [] := by
      rcases hoffered with h | h
      · exact .inl fun hnil => by simp [hnil] at h
      · exact .inr fun hnil => by simp [hnil] at h
    refine ⟨_, if_pos hne, ?_⟩
    rcases hoffered with h | h
    · obtain ⟨tool, htool, rfl⟩ := List.mem_map.mp h
      exact ⟨_, List.mem_append_left _ (List.mem_map.mpr ⟨tool, htool, rfl⟩),
        definitionName_toolDefinition ..⟩
    · obtain ⟨tool, htool, rfl⟩ := List.mem_map.mp h
      exact ⟨_, List.mem_append_right _ (List.mem_map.mpr ⟨tool, htool, rfl⟩),
        definitionName_toolDefinition ..⟩

end Body

/-! ## Classification -/

/-- The answer of `is_native_call` from what it reads. -/
def classifiedNative (config : PiqoConfig) (catalog : McpCatalog) (projectId : Option String)
    (request : RunRequest) (toolName : String) : Bool :=
  if toolName = "delegate" then configuredDelegate config request
  else if projectId.isNone && (NativeTool.parse toolName).isSome then false
  else if request.ownTools then false
  else if (NativeTool.parse toolName).isNone && !catalog.tools.any (·.name = toolName) then false
  else offers ((config.agent request.agentId).toOption.bind (nativeSetting · toolName))

section Classification

variable {env : Surroundings} {config : PiqoConfig} {catalog : McpCatalog} {w : World}
  {sessionId runId : String} {session : SessionSummary} {p : SessionProjection}
  {run : RunProjection} {request : RunRequest}

/-- **What `isNativeCall` answers** while configuration and catalog stay as they are. -/
theorem isNativeCall_run (hconfig : ∀ n, env.answer n .configSnapshot = .ok config)
    (hcatalog : ∀ n, env.answer n .mcpCatalog = catalog) (hw : w.Sound)
    (hsession : w.store.db.getSession sessionId = .ok session)
    (hview : w.view sessionId = some p) (hrun : p.runs.get? runId = some run)
    (hrequest : RunRequest.ofJson? run.request = some request) (toolName : String) :
    ((isNativeCall sessionId runId toolName).run (World.handle env) w).1 =
      .ok (classifiedNative config catalog session.projectId request toolName) := by
  unfold isNativeCall classifiedNative
  by_cases hdelegate : toolName = "delegate"
  · obtain ⟨w₁, hload, -⟩ := loadRun_run env hw hview hrun
    rw [if_pos hdelegate, if_pos hdelegate, Program.run_bind_ok _ hload]
    simp only [hrequest]
    change ((snapshot >>= fun config => .ret (configuredDelegate config request)).run _ w₁).1 = _
    rw [Program.run_bind_ok _ (snapshot_run env hconfig w₁)]
    rfl
  rw [if_neg hdelegate, if_neg hdelegate, Program.run_bind_ok _ (getSession_run env hsession)]
  by_cases hproject : session.projectId.isNone && (NativeTool.parse toolName).isSome
  · rw [if_pos hproject, if_pos hproject]
    rfl
  obtain ⟨w₁, hload, -⟩ := loadRun_run (w := w.tick) env hw hview hrun
  rw [if_neg hproject, if_neg hproject, Program.run_bind_ok _ hload]
  simp only [hrequest, expect, Program.pure_eq, Program.ret_bind]
  by_cases hown : request.ownTools
  · rw [if_pos hown, if_pos hown]
    rfl
  rw [if_neg hown, if_neg hown,
    Program.run_bind_ok _ (configuredAgent_run env hconfig request.agentId w₁)]
  -- the catalog is only asked for a tool that is not one of the server's own
  cases htool : NativeTool.parse toolName with
  | some tool => rfl
  | none =>
    rw [Option.isNone_none, if_pos rfl, Program.run_bind_ok _ (ask_run env .mcpCatalog _), hcatalog]
    by_cases hnamed : (!catalog.tools.any (·.name = toolName)) = true
    · rw [if_pos hnamed, if_pos (by simpa using hnamed)]
      rfl
    · rw [if_neg hnamed, if_neg (by simpa using hnamed)]
      rfl

end Classification

/-! ## Agreement -/

section Agreement

variable {config : PiqoConfig} {catalog : McpCatalog} {projectId : Option String}
  {request : RunRequest} {toolName : String}

/-- The setting that decides about native execution: for `delegate` that of the named agent, for
any other tool that of the agent the request runs as. -/
def nativeSettingOf (config : PiqoConfig) (request : RunRequest) (toolName : String) :
    Option PermissionSetting :=
  if toolName = "delegate" then
    (request.agent.bind fun name => (config.agent name).toOption).bind
      (·.permissions.tools.get? "delegate")
  else (config.agent request.agentId).toOption.bind (nativeSetting · toolName)

/-- A tool the server can execute in the session: `delegate`, a native tool in a project, or an
MCP tool. -/
def Executable (catalog : McpCatalog) (projectId : Option String) (toolName : String) : Prop :=
  toolName = "delegate" ∨ (NativeTool.parse toolName).isSome ∧ projectId.isSome ∨
    ∃ tool ∈ catalog.tools, tool.name = toolName

/-- Where classification and advertisement must agree: the tool is not executable or not
permitted; or it is not `delegate` and the caller brought its own tools; or no layer brings tools
and, unless the tool is `delegate`, the request names its agent. -/
def Unambiguous (config : PiqoConfig) (catalog : McpCatalog) (projectId : Option String)
    (request : RunRequest) (toolName : String) : Prop :=
  ¬ Executable catalog projectId toolName ∨ offers (nativeSettingOf config request toolName) = false ∨
    (toolName ≠ "delegate" ∧ request.ownTools = true) ∨
    (NoLayerTools config request ∧ (toolName = "delegate" ∨ request.agent.isSome))

theorem parse_ne_delegate {tool : NativeTool} (h : NativeTool.parse toolName = some tool) :
    toolName ≠ "delegate" := by
  rintro rfl
  cases h

theorem mem_configuredNativeTools {name : String} {agent : AgentDefinition} {tool : NativeTool}
    (hown : request.ownTools = false) (hname : request.agent = some name)
    (hagent : config.agent name = .ok agent) :
    tool ∈ configuredNativeTools config request ↔ offers (nativeSetting agent tool.name) = true := by
  simp only [configuredNativeTools, hown, hname, hagent, Bool.false_eq_true, if_false]
  cases tool <;> simp [nativeSetting, NativeTool.name, NativeTool.parse]

/-- The native tools a run offers. -/
theorem mem_offeredNativeTools {tool : NativeTool} (htool : NativeTool.parse toolName = some tool) :
    toolName ∈ (offeredNativeTools config projectId request).map NativeTool.name ↔
      projectId.isSome ∧ request.ownTools = false ∧ request.agent.isSome ∧
        offers (nativeSettingOf config request toolName) = true := by
  have hname := NativeTool.parse_eq_some htool
  have hmem : toolName ∈ (offeredNativeTools config projectId request).map NativeTool.name ↔
      tool ∈ offeredNativeTools config projectId request := by
    rw [List.mem_map]
    constructor
    · rintro ⟨tool', htool', hname'⟩
      rw [← hname', NativeTool.parse_name] at htool
      cases htool
      exact htool'
    · intro htool'
      exact ⟨tool, htool', hname.symm⟩
  rw [hmem, offeredNativeTools, nativeSettingOf, if_neg (parse_ne_delegate htool)]
  cases hproject : projectId.isSome with
  | false => simp
  | true =>
    cases hown : request.ownTools with
    | true => simp [configuredNativeTools, hown]
    | false =>
      cases hagent : request.agent with
      | none => simp [configuredNativeTools, hagent]
      | some name =>
        have hid : request.agentId = name := by rw [RunRequest.agentId, hagent]; rfl
        cases hdefinition : config.agent name with
        | error e => simp [configuredNativeTools, hagent, hdefinition, hid, offers]
        | ok agent =>
          rw [if_pos rfl, mem_configuredNativeTools hown hagent hdefinition, hid, hdefinition, hname]
          simp

theorem catalog_name {tool : McpToolDefinition} (h : tool ∈ catalog.tools) :
    NativeTool.parse tool.name = none ∧ tool.name ≠ "delegate" := by
  obtain ⟨rest, hrest⟩ := catalog.named tool h
  rw [hrest]
  exact mcpName_ne

/-- The other tools a run offers. -/
theorem mem_offeredMcpTools :
    toolName ∈ (offeredMcpTools config catalog request).map (·.name) ↔
      request.ownTools = false ∧ request.agent.isSome ∧
        (toolName = "delegate" ∨ ∃ tool ∈ catalog.tools, tool.name = toolName) ∧
        offers (nativeSettingOf config request toolName) = true := by
  unfold offeredMcpTools nativeSettingOf
  cases hown : request.ownTools with
  | true => simp
  | false =>
  cases hagent : request.agent with
  | none => simp [configuredMcpTools, configuredDelegate, hagent]
  | some name =>
  have hid : request.agentId = name := by rw [RunRequest.agentId, hagent]; rfl
  cases hdefinition : config.agent name with
  | error e =>
    simp [configuredMcpTools, configuredDelegate, hagent, hdefinition, hid, offers]
  | ok agent =>
  by_cases hdelegate : toolName = "delegate"
  · have hcatalog : ∀ tool ∈ catalog.tools, tool.name ≠ "delegate" :=
      fun tool htool => (catalog_name htool).2
    subst hdelegate
    simp only [configuredMcpTools, configuredDelegate, hagent, hdefinition, Except.toOption_ok,
      Bool.false_eq_true, if_false, Bool.not_false, Bool.and_true, List.map_append, List.mem_append,
      List.mem_map, List.mem_filter, if_true, Option.bind_some, Option.isSome_some, true_or,
      true_and]
    constructor
    · rintro (⟨tool, ⟨htool, -⟩, hname⟩ | ⟨tool, htool, -⟩)
      · exact absurd hname (hcatalog tool htool)
      · split at htool
        · assumption
        · simp at htool
    · intro hoffers
      rw [if_pos hoffers]
      exact .inr ⟨delegateToolDefinition, List.mem_singleton_self _, rfl⟩
  · have hsetting : ∀ tool ∈ catalog.tools, tool.name = toolName →
        nativeSetting agent toolName = (agent.permissions.tools.get? tool.name).or
          agent.permissions.mcp := by
      intro tool htool hname
      rw [nativeSetting, ← hname, (catalog_name htool).1]
    simp only [configuredMcpTools, configuredDelegate, hagent, hdefinition, hid, Except.toOption_ok,
      Bool.false_eq_true, if_false, Bool.not_false, Bool.and_true, List.map_append, List.mem_append,
      List.mem_map, List.mem_filter, Option.bind_some, Option.isSome_some, hdelegate, false_or,
      true_and]
    constructor
    · rintro (⟨tool, ⟨htool, hoffers⟩, hname⟩ | ⟨tool, htool, hname⟩)
      · exact ⟨⟨tool, htool, hname⟩, hsetting tool htool hname ▸ hoffers⟩
      · split at htool
        · cases List.mem_singleton.mp htool
          exact absurd hname.symm hdelegate
        · simp at htool
    · rintro ⟨⟨tool, htool, hname⟩, hoffers⟩
      exact .inl ⟨tool, ⟨htool, hsetting tool htool hname ▸ hoffers⟩, hname⟩

theorem offered_iff :
    (toolName ∈ (offeredNativeTools config projectId request).map NativeTool.name ∨
        toolName ∈ (offeredMcpTools config catalog request).map (·.name)) ↔
      request.ownTools = false ∧ request.agent.isSome ∧ Executable catalog projectId toolName ∧
        offers (nativeSettingOf config request toolName) = true := by
  rw [mem_offeredMcpTools, Executable]
  cases htool : NativeTool.parse toolName with
  | some tool =>
    rw [mem_offeredNativeTools htool]
    have hne := parse_ne_delegate htool
    have hnone : ¬ ∃ tool ∈ catalog.tools, tool.name = toolName := by
      rintro ⟨tool', htool', hname⟩
      rw [← hname, (catalog_name htool').1] at htool
      cases htool
    simp only [hne, hnone, Option.isSome_some]
    tauto
  | none =>
    have hnone : toolName ∉ (offeredNativeTools config projectId request).map NativeTool.name := by
      intro hmem
      obtain ⟨tool, -, hname⟩ := List.mem_map.mp hmem
      rw [← hname, NativeTool.parse_name] at htool
      cases htool
    simp only [hnone, Option.isSome_none]
    tauto

theorem classifiedNative_iff :
    classifiedNative config catalog projectId request toolName = true ↔
      Executable catalog projectId toolName ∧
        offers (nativeSettingOf config request toolName) = true ∧
        (toolName = "delegate" ∨ request.ownTools = false) := by
  unfold classifiedNative Executable nativeSettingOf
  by_cases hdelegate : toolName = "delegate"
  · simp only [hdelegate, true_or, and_true, true_and]
    unfold configuredDelegate
    cases request.agent with
    | none => simp [offers]
    | some name => cases hagent : config.agent name <;> simp [hagent, offers]
  rw [if_neg hdelegate, if_neg hdelegate]
  cases htool : NativeTool.parse toolName with
  | some tool =>
    have hnone : ¬ ∃ tool ∈ catalog.tools, tool.name = toolName := by
      rintro ⟨tool', htool', hname⟩
      rw [← hname, (catalog_name htool').1] at htool
      cases htool
    cases projectId <;> cases request.ownTools <;> simp [hdelegate, hnone]
  | none =>
    cases request.ownTools <;> simp [hdelegate]

/-- A request without tools of its own, if no layer has any. -/
theorem NoLayerTools.ownTools (h : NoLayerTools config request) : request.ownTools = false := by
  have hbody := h (normalizeBody request.body) (by simp [PiqoConfig.bodyLayers])
  rw [RunRequest.ownTools, Option.isSome_eq_false_iff, Option.isNone_iff_eq_none, ← hbody]
  cases request.body <;> rfl

end Agreement

/-- **Classification equals advertisement exactly where it must.** While configuration and
catalog stay as they are, `isNativeCall` answers, and its answer is that the server advertised the
tool in the body it built if and only if the input is unambiguous. -/
theorem isNativeCall_iff_advertised (env : Surroundings) (sessionId runId toolName : String)
    (protocol : ProviderProtocol) (q : SessionProjection) {config : PiqoConfig}
    {catalog : McpCatalog} {w : World} {session : SessionSummary} {p : SessionProjection}
    {run : RunProjection} {request : RunRequest} {body : Json}
    (hconfig : ∀ n, env.answer n .configSnapshot = .ok config)
    (hcatalog : ∀ n, env.answer n .mcpCatalog = catalog) (hw : w.Sound)
    (hsession : w.store.db.getSession sessionId = .ok session)
    (hview : w.view sessionId = some p) (hrun : p.runs.get? runId = some run)
    (hrequest : RunRequest.ofJson? run.request = some request)
    (hbody : buildBody config protocol request q
      (offeredNativeTools config session.projectId request)
      (offeredMcpTools config catalog request) = .ok body) :
    ∃ native, ((isNativeCall sessionId runId toolName).run (World.handle env) w).1 = .ok native ∧
      ((native = true ↔ Advertised config protocol request body toolName) ↔
        Unambiguous config catalog session.projectId request toolName) := by
  refine ⟨_, isNativeCall_run hconfig hcatalog hw hsession hview hrun hrequest toolName, ?_⟩
  rw [classifiedNative_iff, buildBody_advertised toolName hbody, offered_iff, Unambiguous]
  have hown : NoLayerTools config request → request.ownTools = false := NoLayerTools.ownTools
  -- an agent that is asked about `delegate` is named
  have hnamed : toolName = "delegate" → offers (nativeSettingOf config request toolName) = true →
      request.agent.isSome := by
    intro hdelegate hoffers
    rw [nativeSettingOf, if_pos hdelegate] at hoffers
    cases hagent : request.agent with
    | none => rw [hagent] at hoffers; cases hoffers
    | some name => rfl
  grind

/-! ## A call nobody offered -/

/-- One agent, that may run shell commands. -/
def shellConfig : PiqoConfig where
  agents := (∅ : SortedMap String AgentConfigOverride).insert "assistant"
    { permissions := some { bash := some .allow } }

/-- A request that names no agent, or this one. -/
def shellRequest (agent : Option String) : RunRequest where
  provider := "p"
  model := "m"
  input := .str "hi"
  agent := agent
  variant := none
  body := .null

/-- A session in a project, with one run. -/
def shellStore (request : RunRequest) : Store :=
  (Store.ofDatabase (.empty ((∅ : SortedMap String Project).insert "p" ⟨"p", "p", "/w"⟩))).executeAll
    [.createSessionWithRetention "s" "t0" none (some "p") .forever,
      .appendEvents "s" (fun _ => "t1") [.runQueued "r" none "p" "m" request.toJson]]

def shellWorld (request : RunRequest) : World :=
  { store := shellStore request, published := [], workers := [], clock := 0 }

theorem shellWorld_sound (request : RunRequest) : (shellWorld request).Sound :=
  (Store.Sound.empty _).executeAll _

/-- The request names no agent, so nothing is offered; a `bash` call is executed all the same, as
the agent `assistant`. -/
theorem isNativeCall_unadvertised :
    (shellWorld (shellRequest none)).Sound ∧
    ((isNativeCall "s" "r" "bash").run (World.handle (.plain shellConfig))
      (shellWorld (shellRequest none))).1 = .ok true ∧
    ∃ body, buildBody shellConfig .chatCompletions (shellRequest none) (.new "s")
        (offeredNativeTools shellConfig (some "p") (shellRequest none))
        (offeredMcpTools shellConfig ⟨[], by simp⟩ (shellRequest none)) = .ok body ∧
      body.get "tools" = none ∧
      ¬ Advertised shellConfig .chatCompletions (shellRequest none) body "bash" := by
  refine ⟨shellWorld_sound _, rfl, _, rfl, rfl, ?_⟩
  rintro ⟨-, definitions, hdefinitions, -⟩
  cases hdefinitions

/-- The request names its agent: the tool is offered and executed. -/
theorem isNativeCall_iff_advertised_shell :
    ∃ body native, buildBody shellConfig .chatCompletions (shellRequest (some "assistant")) (.new "s")
        (offeredNativeTools shellConfig (some "p") (shellRequest (some "assistant")))
        (offeredMcpTools shellConfig ⟨[], by simp⟩ (shellRequest (some "assistant"))) = .ok body ∧
      ((isNativeCall "s" "r" "bash").run (World.handle (.plain shellConfig))
        (shellWorld (shellRequest (some "assistant")))).1 = .ok native ∧
      ((native = true ↔
          Advertised shellConfig .chatCompletions (shellRequest (some "assistant")) body "bash") ↔
        Unambiguous shellConfig ⟨[], by simp⟩ (some "p") (shellRequest (some "assistant")) "bash") := by
  have hconfig : ∀ n, (Surroundings.plain shellConfig).answer n .configSnapshot = .ok shellConfig :=
    fun _ => rfl
  obtain ⟨native, hnative, hiff⟩ := isNativeCall_iff_advertised (.plain shellConfig) "s" "r" "bash"
    .chatCompletions (.new "s") hconfig (fun _ => rfl)
    (shellWorld_sound (shellRequest (some "assistant"))) rfl rfl rfl rfl rfl
  exact ⟨_, native, rfl, hnative, hiff⟩

end Piqo
