import PiqoServer.Server.Config

/-!
# Provider requests

The tools a run offers and the body that is sent for it (`build_body` and the functions beside it
in `piqo-server/src/supervisor.rs`; the tools themselves in `piqo-tools/src/lib.rs`).

## Main definitions

* `NativeTool`, `McpToolDefinition`, `McpCatalog`: the tools of the server and of MCP servers
* `compileCatalog`, `McpCatalog.ofServers`: the catalog from what the servers report
* `configuredNativeTools`, `configuredMcpTools`, `configuredDelegate`: what an agent is offered
* `offeredNativeTools`, `offeredMcpTools`: what `execute_run` puts into the request
* `buildBody`: the request body

## Main results

* `buildBody_tools`: what the body has under `tools`
-/

namespace Piqo

/-! ## Tools -/

/-- Native tools implemented by the server itself. -/
inductive NativeTool where
  | read | write | edit | bash
  deriving DecidableEq, Repr

namespace NativeTool

def parse : String → Option NativeTool
  | "read" => some .read
  | "write" => some .write
  | "edit" => some .edit
  | "bash" => some .bash
  | _ => none

def name : NativeTool → String
  | .read => "read"
  | .write => "write"
  | .edit => "edit"
  | .bash => "bash"

/-- `edit` and `write` share one permission. -/
def permissionName : NativeTool → String
  | .read => "read"
  | .write | .edit => "write"
  | .bash => "bash"

@[simp] theorem parse_name (tool : NativeTool) : parse tool.name = some tool := by
  cases tool <;> rfl

theorem parse_eq_some {s : String} {tool : NativeTool} (h : parse s = some tool) :
    s = tool.name := by
  unfold parse at h
  split at h <;> cases h <;> rfl

end NativeTool

structure McpToolDefinition where
  name : String
  serverId : String
  serverToolName : String
  description : Option String
  inputSchema : Json
  deriving DecidableEq

/-- A tool as an MCP server reports it. -/
structure DiscoveredTool where
  name : String
  description : Option String
  inputSchema : List (String × Json)
  deriving DecidableEq

/-- The tools whose name no other tool has. -/
def retainUnique (tools : List McpToolDefinition) : List McpToolDefinition :=
  tools.filter fun tool => tools.countP (·.name = tool.name) = 1

/-- The bytes of a public tool name. -/
def publicNameChar (c : Char) : Bool := c.isAlphanum || c = '_'

section Catalog

-- whether `jsonschema` accepts a schema
variable (validator : Json → Bool)

/-- The definitions of one server's tools. -/
def compileCatalog (serverId : String) (tools : List DiscoveredTool) : List McpToolDefinition :=
  retainUnique <| tools.filterMap fun tool =>
    let publicName := "mcp__" ++ (serverId ++ "__" ++ tool.name)
    let schema := Json.obj tool.inputSchema
    if 64 < publicName.utf8ByteSize || !publicName.toList.all publicNameChar then none
    else if !validator schema then none
    else some {
      name := publicName, serverId, serverToolName := tool.name
      description := tool.description, inputSchema := schema }

/-- The tools of all MCP servers; a public name starts with `mcp__`. -/
structure McpCatalog where
  tools : List McpToolDefinition
  named : ∀ tool ∈ tools, ∃ rest, tool.name = "mcp__" ++ rest

theorem named_of_mem_compileCatalog {serverId : String} {tools : List DiscoveredTool}
    {tool : McpToolDefinition} (h : tool ∈ compileCatalog validator serverId tools) :
    ∃ rest, tool.name = "mcp__" ++ rest := by
  rw [compileCatalog, retainUnique, List.mem_filter, List.mem_filterMap] at h
  obtain ⟨⟨reported, -, h⟩, -⟩ := h
  dsimp only at h
  split at h
  · cases h
  · split at h
    · cases h
    · cases h
      exact ⟨_, rfl⟩

/-- `McpManager::catalog` over the tools of the connected servers. -/
def McpCatalog.ofServers (servers : SortedMap String (List DiscoveredTool)) : McpCatalog where
  tools := (retainUnique (servers.entries.flatMap fun e => compileCatalog validator e.1 e.2)).mergeSort
    fun a b => a.name ≤ b.name
  named := by
    intro tool htool
    rw [List.mem_mergeSort, retainUnique, List.mem_filter, List.mem_flatMap] at htool
    obtain ⟨⟨e, -, he⟩, -⟩ := htool
    exact named_of_mem_compileCatalog validator he

end Catalog

/-- A public name is that of no tool of the server itself. -/
theorem mcpName_ne {rest : String} :
    NativeTool.parse ("mcp__" ++ rest) = none ∧ "mcp__" ++ rest ≠ "delegate" := by
  have hhead : ∀ s : String, s = "mcp__" ++ rest → s.toList.head? = some 'm' := by
    intro s hs
    rw [hs, String.toList_append]
    rfl
  refine ⟨?_, fun h => ?_⟩
  · cases hparse : NativeTool.parse ("mcp__" ++ rest) with
    | none => rfl
    | some tool =>
      have := hhead _ (NativeTool.parse_eq_some hparse).symm
      cases tool <;> simp [NativeTool.name] at this
  · have := hhead _ h.symm
    simp at this

/-! ## Tool definitions -/

inductive ProviderProtocol where
  | chatCompletions | responses
  deriving DecidableEq, Repr

/-- A tool definition in the form of the protocol. -/
def toolDefinition (protocol : ProviderProtocol) (name : String) (description parameters : Json) :
    Json :=
  let fields := [("name", Json.str name), ("description", description), ("parameters", parameters)]
  match protocol with
  | .chatCompletions => .object [("type", .str "function"), ("function", .object fields)]
  | .responses => .object (("type", .str "function") :: fields)

/-- The JSON schema of an object with the given properties. -/
def objectSchema (required : List String) (properties : List (String × Json)) : Json :=
  .object [
    ("type", .str "object"),
    ("additionalProperties", .bool false),
    ("required", .arr (required.map .str)),
    ("properties", .object properties)]

def stringSchema : Json := .object [("type", .str "string")]

def positiveSchema : Json := .object [("type", .str "integer"), ("minimum", .num 1)]

def NativeTool.description : NativeTool → String
  | .read => "Read a UTF-8 regular file inside the project workspace."
  | .write => "Create or atomically overwrite a UTF-8 file inside the project workspace."
  | .edit => "Replace exact text in an existing UTF-8 file inside the project workspace."
  | .bash => "Execute one command with a project workspace working directory."

def NativeTool.parameters : NativeTool → Json
  | .read => objectSchema ["filePath"]
      [("filePath", stringSchema), ("offset", positiveSchema), ("limit", positiveSchema)]
  | .write => objectSchema ["filePath", "content", "mode"]
      [("filePath", stringSchema), ("content", stringSchema),
        ("mode", .object [("type", .str "string"), ("enum", .arr [.str "create", .str "overwrite"])])]
  | .edit => objectSchema ["filePath", "oldString", "newString"]
      [("filePath", stringSchema), ("oldString", stringSchema), ("newString", stringSchema),
        ("replaceAll", .object [("type", .str "boolean")])]
  | .bash => objectSchema ["command"] [("command", stringSchema), ("cwd", stringSchema)]

def nativeToolDefinitions (protocol : ProviderProtocol) (tools : List NativeTool) : List Json :=
  tools.map fun tool =>
    toolDefinition protocol tool.name (.str tool.description) tool.parameters

def mcpToolDefinitions (protocol : ProviderProtocol) (tools : List McpToolDefinition) :
    List Json :=
  tools.map fun tool =>
    toolDefinition protocol tool.name (stringField tool.description) tool.inputSchema

def delegateToolDefinition : McpToolDefinition where
  name := "delegate"
  serverId := "piqo"
  serverToolName := "delegate"
  description := some
    "Delegate a bounded task to a named Piqo agent using explicitly selected parent messages."
  inputSchema := objectSchema ["agent", "task", "context_message_ids"]
    [("agent", stringSchema), ("task", stringSchema),
      ("context_message_ids", .object [("type", .str "array"), ("items", stringSchema)])]

/-- The name under which a definition offers a tool. -/
def definitionName (protocol : ProviderProtocol) (definition : Json) : Option String :=
  match protocol with
  | .chatCompletions => (definition.get "function").bind fun f => (f.get "name").bind Json.asStr?
  | .responses => (definition.get "name").bind Json.asStr?

@[simp] theorem definitionName_toolDefinition (protocol : ProviderProtocol) (name : String)
    (description parameters : Json) :
    definitionName protocol (toolDefinition protocol name description parameters) = some name := by
  cases protocol <;> simp [definitionName, toolDefinition, Json.get_object, SortedMap.lookup,
    Json.asStr?]

/-! ## What a run offers -/

/-- A setting that lets a tool be offered. -/
def offers : Option PermissionSetting → Bool
  | some .allow | some .ask => true
  | some .deny | none => false

def configuredNativeTools (config : PiqoConfig) (request : RunRequest) : List NativeTool :=
  if request.ownTools then []
  else match request.agent with
    | none => []
    | some agentName => match config.agent agentName with
      | .error _ => []
      | .ok agent =>
        [(NativeTool.read, agent.permissions.read), (.write, agent.permissions.write),
          (.edit, agent.permissions.write), (.bash, agent.permissions.bash)].filterMap
            fun e => if offers e.2 then some e.1 else none

def configuredMcpTools (config : PiqoConfig) (request : RunRequest)
    (catalog : List McpToolDefinition) : List McpToolDefinition :=
  match request.agent with
  | none => []
  | some agentName => match config.agent agentName with
    | .error _ => []
    | .ok agent =>
      catalog.filter fun tool =>
        offers ((agent.permissions.tools.get? tool.name).or agent.permissions.mcp)

def configuredDelegate (config : PiqoConfig) (request : RunRequest) : Bool :=
  match request.agent with
  | none => false
  | some agentName => match config.agent agentName with
    | .error _ => false
    | .ok agent => offers (agent.permissions.tools.get? "delegate")

/-- The native tools `execute_run` offers; a session without project has none. -/
def offeredNativeTools (config : PiqoConfig) (projectId : Option String) (request : RunRequest) :
    List NativeTool :=
  if projectId.isSome then configuredNativeTools config request else []

/-- The MCP tools `execute_run` offers, and `delegate`. -/
def offeredMcpTools (config : PiqoConfig) (catalog : McpCatalog) (request : RunRequest) :
    List McpToolDefinition :=
  (if request.ownTools then [] else configuredMcpTools config request catalog.tools) ++
    if configuredDelegate config request && !request.ownTools then [delegateToolDefinition] else []

/-! ## The body -/

def roleName : MessageRole → String
  | .system => "system"
  | .user => "user"
  | .assistant => "assistant"
  | .tool => "tool"

/-- A block in a message with several blocks. -/
def ContentBlock.part : ContentBlock → Json
  | .text s => .object [("type", .str "text"), ("text", .str s)]
  | .json v => v

/-- The content of a message: a single block stands for itself. -/
def messageContent : List ContentBlock → Json
  | [.text text] => .str text
  | [.json value] => value
  | blocks => .arr (blocks.map ContentBlock.part)

def transcriptEntry (role : String) (content : Json) : List (String × Json) :=
  [("content", content), ("role", .str role)]

/-- A message the active summary does not cover. -/
def uncovered (artifact : Option ContextArtifact) (message : MessageProjection) : Bool :=
  artifact.all fun artifact => artifact.sourceEndEventId < message.lastEventId

/-- The calls whose assistant message is unknown, or not covered by the active summary. -/
def transcriptCalls (p : SessionProjection) : List ToolCallProjection :=
  (p.runs.values.flatMap (·.toolCalls.values)).filter fun call =>
    p.context.activeArtifact.all fun artifact =>
      (p.messages.find? (·.messageId = call.assistantMessageId)).all fun message =>
        artifact.sourceEndEventId < message.lastEventId

/-- The entries for messages, behind the agent's instructions and the active summary. -/
def transcriptMessages (p : SessionProjection) (instructions : Option String) :
    List (List (String × Json)) :=
  (instructions.toList.map fun text => transcriptEntry "system" (.str text)) ++
  (p.context.activeArtifact.toList.map fun artifact =>
    transcriptEntry "system" (.str
      ("Earlier conversation summary (" ++ artifact.artifactId ++ "): " ++ artifact.summary))) ++
  ((p.messages.filter (·.closed)).filter (uncovered p.context.activeArtifact)).map fun message =>
    transcriptEntry (roleName message.role) (messageContent message.blocks)

/-- Attach the calls of the assistant messages by position; `none` is an index out of range. -/
def attachCalls (calls : List ToolCallProjection) :
    Nat → List MessageProjection → List (List (String × Json)) →
      Option (List (List (String × Json)))
  | _, [], transcript => some transcript
  | position, message :: messages, transcript =>
    let own := calls.filter (·.assistantMessageId = message.messageId)
    if message.role ≠ .assistant ∨ own = [] then attachCalls calls (position + 1) messages transcript
    else
      match transcript[position]? with
      | none => none
      | some entry =>
        attachCalls calls (position + 1) messages (transcript.set position
          (SortedMap.insertEntry "tool_calls" (.arr (own.map fun call => .object [
            ("id", .str call.callId), ("type", .str "function"),
            ("function", .object [
              ("name", .str call.toolName), ("arguments", .str call.rawArguments)])])) entry))

/-- The transcript for Chat Completions. -/
def chatTranscript (p : SessionProjection) (instructions : Option String) :
    Option (List Json) :=
  let transcript := transcriptMessages p instructions
  let completed := p.messages.filter (·.closed)
  (attachCalls (transcriptCalls p) (transcript.length - completed.length) completed
    transcript).map fun transcript =>
      transcript.map .obj ++ (transcriptCalls p).filterMap fun call =>
        call.result.map fun result => .object [
          ("role", .str "tool"), ("tool_call_id", .str call.callId),
          ("content", .str result.render)]

/-- The transcript for Responses. -/
def responsesTranscript (p : SessionProjection) (instructions : Option String) : List Json :=
  (transcriptMessages p instructions).map .obj ++ (transcriptCalls p).flatMap fun call =>
    .object [
      ("type", .str "function_call"), ("call_id", .str call.callId),
      ("name", .str call.toolName), ("arguments", .str call.rawArguments)] ::
    call.result.toList.map fun result => .object [
      ("type", .str "function_call_output"), ("call_id", .str call.callId), ("output", result)]

/-- The transcript under the key of the protocol; `none` is an index out of range. -/
def transcriptField (protocol : ProviderProtocol) (p : SessionProjection)
    (instructions : Option String) : Option (String × Json) :=
  match protocol with
  | .chatCompletions => (chatTranscript p instructions).map fun items => ("messages", .arr items)
  | .responses => some ("input", .arr (responsesTranscript p instructions))

/-- The text of the agent's instructions; an agent that is named must be configured. -/
def agentInstructions (config : PiqoConfig) : Option String → Except StoreError (Option String)
  | none => .ok none
  | some name => ((config.agent name).mapError .invalidRequest).map (·.instructions)

/-- The body with its own fields filled in where no layer has them. -/
def harnessFields (protocol : ProviderProtocol) (request : RunRequest)
    (nativeTools : List NativeTool) (mcpTools : List McpToolDefinition)
    (fields : List (String × Json)) : List (String × Json) :=
  let fields := Json.orInsert "stream" (.bool true)
    (Json.orInsert "model" (.str request.model) fields)
  if nativeTools ≠ [] ∨ mcpTools ≠ [] then
    Json.orInsert "tools" (.arr
      (nativeToolDefinitions protocol nativeTools ++ mcpToolDefinitions protocol mcpTools)) fields
  else fields

/-- The body of a provider request. An index out of range is a panic. -/
def buildBody (config : PiqoConfig) (protocol : ProviderProtocol) (request : RunRequest)
    (p : SessionProjection) (nativeTools : List NativeTool) (mcpTools : List McpToolDefinition) :
    Except StoreError Json := do
  let body ← (mergeRequestBodies (config.bodyLayers request.model request.agent request.variant
    request.body)).mapError .invalidRequest
  let fields ← match body.asObject? with
    | some fields => .ok fields
    | none => .error (.invalidRequest "request body must be an object")
  let fields := harnessFields protocol request nativeTools mcpTools fields
  let instructions ← agentInstructions config request.agent
  match transcriptField protocol p instructions with
  | none => .error .panicked
  | some (key, transcript) => .ok (.obj (Json.orInsert key transcript fields))

/-- How a body comes about. -/
theorem buildBody_eq_ok {config : PiqoConfig} {protocol : ProviderProtocol} {request : RunRequest}
    {p : SessionProjection} {nativeTools : List NativeTool} {mcpTools : List McpToolDefinition}
    {body : Json} (h : buildBody config protocol request p nativeTools mcpTools = .ok body) :
    ∃ fields instructions key transcript,
      mergeRequestBodies (config.bodyLayers request.model request.agent request.variant
        request.body) = .ok (.obj fields) ∧
      agentInstructions config request.agent = .ok instructions ∧
      transcriptField protocol p instructions = some (key, transcript) ∧
      body = .obj (Json.orInsert key transcript
        (harnessFields protocol request nativeTools mcpTools fields)) := by
  obtain ⟨fields, hmerge, -⟩ := mergeRequestBodies_bodyLayers config request.model request.agent
    request.variant request.body
  unfold buildBody at h
  rw [hmerge] at h
  obtain ⟨merged, hmerged, h⟩ := Except.bind_eq_ok.mp h
  cases hmerged
  obtain ⟨object, hobject, h⟩ := Except.bind_eq_ok.mp h
  cases hobject
  obtain ⟨instructions, hinstructions, h⟩ := Except.bind_eq_ok.mp h
  split at h
  · cases h
  · next key transcript hfield =>
    cases h
    exact ⟨fields, instructions, key, transcript, hmerge, hinstructions, hfield, rfl⟩

end Piqo
