import PiqoServer.Core.Encoding
import PiqoServer.Server.Operations

/-!
# Required actions

What happens to the tool calls of a run: classifying them, deciding whether they may run,
executing the native ones, delegating to child agents, and resuming the run once every call has
its result (`piqo-server/src/supervisor.rs`).

The loop that executes approved calls ends when no call is left to claim; it takes fuel.

## Main definitions

* `isNativeCall`: whether the server executes a call
* `toolDecision`, `evaluateToolPermissions`: the decision about each unanswered call
* `executeApprovedNativeCalls`: claim, execute and answer the approved native calls
* `spawnDelegatedChild`: the child session of a `delegate` call
* `resolvePermission`: a client's decision about a request
-/

namespace Piqo

/-! ## Errors as text -/

def SessionPhase.debug : SessionPhase → String
  | .created => "Created"
  | .running => "Running"
  | .interrupted => "Interrupted"
  | .finished => "Finished"
  | .failed => "Failed"

def RunStatus.debug : RunStatus → String
  | .queued => "Queued"
  | .running => "Running"
  | .requiresAction => "RequiresAction"
  | .completed => "Completed"
  | .failed => "Failed"
  | .cancelled => "Cancelled"
  | .interrupted => "Interrupted"

def ProjectionError.message : ProjectionError → String
  | .duplicateCreation => "session creation event was duplicated"
  | .invalidTransition e =>
    "invalid transition while projecting session: invalid session transition from " ++
      e.from_.debug ++ " to " ++ e.to_.debug
  | .duplicateMessage id => s!"message {id} was started more than once"
  | .unknownMessage id => s!"message {id} is unknown"
  | .duplicateToolCall id => s!"tool call {id} was emitted more than once"
  | .unknownToolCall id => s!"tool call {id} is unknown"
  | .duplicatePermissionRequest id => s!"permission request {id} was emitted more than once"
  | .unknownPermissionRequest id => s!"permission request {id} is unknown"
  | .conflictingPermissionResolution id =>
    s!"permission request {id} already has a different resolution"
  | .conflictingToolResult id => s!"tool call {id} already has a different result"
  | .externalToolExecution id => s!"external tool call {id} cannot be executed natively"
  | .conflictingToolExecution id => s!"tool call {id} already has a different execution claim"
  | .messageAlreadyClosed id => s!"message {id} is already closed"
  | .duplicateAgent id => s!"agent {id} was spawned more than once"
  | .unknownAgent id => s!"agent {id} is unknown"
  | .conflictingAgentResult id => s!"agent {id} already has a different terminal result"
  | .conflictingAgentContext id => s!"agent {id} already has different delegated context"
  | .duplicateRun id => s!"run {id} was queued more than once"
  | .unknownRun id => s!"run {id} is unknown"
  | .invalidRunTransition id from_ to_ =>
    s!"invalid run {id} transition from " ++ from_.debug ++ " to " ++ to_.debug

/-- `to_string`; the texts of database and JSON errors end after the prefix. -/
def StoreError.message : StoreError → String
  | .database => "database error"
  | .json => "invalid event JSON"
  | .sessionNotFound id => s!"session {id} was not found"
  | .projectNotFound id => s!"project {id} was not found"
  | .projectDeleting id => s!"project {id} is being deleted"
  | .eventNotFound sessionId eventId => s!"event {eventId} was not found in session {sessionId}"
  | .unsupportedSchemaVersion version => s!"event schema version {version} is unsupported"
  | .corruptSession id reason => s!"session {id} has an invalid event log: {reason}"
  | .invalidTransition e => "invalid session transition: " ++ e.message
  | .invalidCursor => "invalid pagination cursor"
  | .invalidRequest message => s!"invalid request: {message}"
  | .conflict message => s!"conflict: {message}"
  | .runNotFound id => s!"run {id} was not found"
  | .toolCallNotFound id => s!"tool call {id} was not found"
  | .toolCallWrongRun callId runId => s!"tool call {callId} does not belong to run {runId}"
  | .toolResultConflict id => s!"tool result for {id} conflicts with the recorded result"
  | .callerOwnedTranscript => "tool results cannot be submitted for a caller-owned transcript"
  | .nativeToolManaged id => s!"native tool call {id} is executed by the server"
  | .mcpToolManaged id => s!"MCP tool call {id} is executed by the server"
  | .queuePaused => "session queue is paused"
  | .queueNotPaused => "session queue is not paused"
  | .providerNotFound name => s!"provider {name} was not found"
  | .providerUnavailable message => s!"provider unavailable: {message}"
  | .providerProtocolError message => s!"provider protocol error: {message}"
  | .shuttingDown => "server is shutting down"
  | .runCapacityExceeded => "run capacity has been reached"
  | .invalidPermissionScope => "permission scope is invalid for a durable rule"
  | .agentLinkConflict callId => s!"agent delegation for tool call {callId} already exists"
  | .panicked | .diverged => ""

/-! ## Reading state -/

/-- A value that must be there. -/
def expect {α : Type} (e : StoreError) : Option α → ServerProgram α
  | some a => return a
  | none => .fail e

/-- The configuration, or that the provider is unavailable. -/
def snapshot : ServerProgram PiqoConfig := do
  match ← ask .configSnapshot with
  | .ok config => return config
  | .error message => .fail (.providerUnavailable message)

/-- `self.config.agent(name).ok()`. -/
def configuredAgent (name : String) : ServerProgram (Option AgentDefinition) := do
  match ← ask .configSnapshot with
  | .ok config => return (config.agent name).toOption
  | .error _ => return none

/-- A run of the session. -/
def loadRun (sessionId runId : String) : ServerProgram (SessionProjection × RunProjection) := do
  let projection ← onStore (.projection sessionId)
  let run ← expect (.runNotFound runId) (projection.runs.get? runId)
  return (projection, run)

def ensureSessionMutable (sessionId : String) : ServerProgram Unit := do
  let session ← onStore (.getSession sessionId)
  match session.projectId with
  | none => return ()
  | some projectId =>
    if ← ask (.isDeleting projectId) then .fail (.projectDeleting projectId)

section Follows

variable {A : Type} {allows : A → ServerOp → Prop} {next : A → (op : ServerOp) → op.Reply → A}
  {α β : Type} {Q : A → Except StoreError β → Prop} {a : A}

theorem follows_expect {e : StoreError} {o : Option α} {f : α → ServerProgram β}
    (hsome : ∀ v, o = some v → (f v).Follows allows next Q a) (hnone : Q a (.error e)) :
    (expect e o >>= f).Follows allows next Q a := by
  cases o with
  | some v => exact hsome v rfl
  | none => exact hnone

theorem follows_snapshot {f : PiqoConfig → ServerProgram β}
    (hallowed : allows a (.external .configSnapshot))
    (hok : ∀ config, (f config).Follows allows next Q
      (next a (.external .configSnapshot) (.ok config)))
    (herror : ∀ r e, Q (next a (.external .configSnapshot) r) (.error e)) :
    (snapshot >>= f).Follows allows next Q a := by
  refine ⟨hallowed, fun r => ?_⟩
  cases r with
  | ok config => exact hok config
  | error message => exact herror _ _

theorem follows_loadRun {sessionId runId : String}
    {f : SessionProjection × RunProjection → ServerProgram β}
    (hallowed : allows a (.store (.projection sessionId)))
    (hok : ∀ p run, p.runs.get? runId = some run →
      (f (p, run)).Follows allows next Q (next a (.store (.projection sessionId)) (.ok p)))
    (herror : ∀ r e, Q (next a (.store (.projection sessionId)) r) (.error e)) :
    (loadRun sessionId runId >>= f).Follows allows next Q a := by
  rw [loadRun, Program.bind_assoc]
  refine follows_onStore hallowed (fun p => ?_) fun e => herror _ e
  rw [Program.bind_assoc]
  exact follows_expect (fun run hrun => hok p run hrun) (herror _ _)

variable {allowed : ServerOp → Prop}

theorem only_expect {e : StoreError} {o : Option α} {f : α → ServerProgram β}
    (hf : ∀ v, (f v).Only allowed) : (expect e o >>= f).Only allowed :=
  follows_expect (fun v _ => hf v) trivial

theorem only_snapshot {f : PiqoConfig → ServerProgram β}
    (hop : allowed (.external .configSnapshot)) (hf : ∀ config, (f config).Only allowed) :
    (snapshot >>= f).Only allowed :=
  follows_snapshot hop hf fun _ _ => trivial

theorem only_loadRun {sessionId runId : String}
    {f : SessionProjection × RunProjection → ServerProgram β}
    (hop : allowed (.store (.projection sessionId))) (hf : ∀ loaded, (f loaded).Only allowed) :
    (loadRun sessionId runId >>= f).Only allowed :=
  follows_loadRun hop (fun p run _ => hf (p, run)) fun _ _ => trivial

end Follows

/-! ## Classification -/

/-- The setting `is_native_call` reads for a tool that is not `delegate`. -/
def nativeSetting (agent : AgentDefinition) (toolName : String) : Option PermissionSetting :=
  match NativeTool.parse toolName with
  | some .read => agent.permissions.read
  | some .write | some .edit => agent.permissions.write
  | some .bash => agent.permissions.bash
  | none => (agent.permissions.tools.get? toolName).or agent.permissions.mcp

def isNativeCall (sessionId runId toolName : String) : ServerProgram Bool := do
  if toolName = "delegate" then
    let (_, run) ← loadRun sessionId runId
    let request ← expect .json (RunRequest.ofJson? run.request)
    return configuredDelegate (← snapshot) request
  let tool := NativeTool.parse toolName
  let session ← onStore (.getSession sessionId)
  if session.projectId.isNone && tool.isSome then return false
  let (_, run) ← loadRun sessionId runId
  let request ← expect .json (RunRequest.ofJson? run.request)
  if request.ownTools then return false
  let configured ← configuredAgent request.agentId
  if tool.isNone then
    let catalog ← ask .mcpCatalog
    if !catalog.tools.any (·.name = toolName) then return false
  return offers (configured.bind (nativeSetting · toolName))

/-! ## Decisions -/

/-- The setting for a call in a child session: its own under the parent's ceiling. -/
def combinedSetting (configured parent : Option PermissionSetting) : Option PermissionSetting :=
  match parent with
  | none => configured
  | some parent => some (mostRestrictivePermission (configured.getD .deny) parent)

/-- Durable rules count where the parent sets no limit. -/
def parentAllowsInteractive (parent : Option PermissionSetting) : Bool :=
  parent.all (· = .allow)

def PermissionScope.decisionSource : PermissionScope → PermissionDecisionSource
  | .session => .sessionRule
  | .project => .projectRule
  | .configuration => .interactiveConfiguration
  | .once => .requestApproval

/-- The decision, where it comes from, and the rule it rests on. -/
def toolDecision (setting : Option PermissionSetting) (rule : Option PermissionRuleRecord) :
    PermissionDecision × PermissionDecisionSource × Option String :=
  match setting, rule with
  | some .deny, _ => (.deny, .configuration, none)
  | _, some rule => (.allow, rule.scope.decisionSource, some rule.id)
  | some .allow, none => (.allow, .configuration, none)
  | some .ask, none => (.ask, .configuration, none)
  | none, none => (.deny, .default, none)

/-- The name a durable rule has for a tool. -/
def ruleToolName (toolName : String) : String :=
  ((NativeTool.parse toolName).map NativeTool.permissionName).getD toolName

/-- The decision about one call. -/
structure CallEvaluation where
  requestId : String
  call : ToolCallProjection
  decision : PermissionDecision
  source : PermissionDecisionSource
  ruleId : Option String

/-- The result of a call that was denied. -/
def permissionDenied : Json :=
  .object [("error", .object [("code", .str "permission_denied"),
    ("message", .str "tool invocation was denied by permission policy")])]

/-- The events that record a decision. -/
def CallEvaluation.events (runId agentId : String) (e : CallEvaluation) : List SemanticEvent :=
  .permissionRequested e.requestId runId (some e.call.callId) agentId e.call.toolName
    e.call.arguments ::
  match e.decision with
  | .ask => []
  | .allow => [.permissionResolved e.requestId .allow (some e.source) none e.ruleId none]
  | .deny => [
      .permissionResolved e.requestId .deny (some e.source) none e.ruleId none,
      .toolResult runId e.call.callId e.call.agentId e.call.toolName permissionDenied]

/-- What the decisions about the calls of a session depend on. -/
structure PermissionContext where
  sessionId : String
  projectId : Option String
  agentId : String
  configured : Option AgentDefinition
  parentCeiling : Option AgentPermissions

def evaluateCall (c : PermissionContext) (call : ToolCallProjection) :
    ServerProgram CallEvaluation := do
  let requestId ← ask .newUuid
  let own := c.configured.bind fun agent => permissionSetting agent.permissions call.toolName
  let parent := c.parentCeiling.bind (permissionSetting · call.toolName)
  let rule ←
    if parentAllowsInteractive parent then
      onStore (.matchingPermissionRule c.sessionId c.projectId c.agentId
        (ruleToolName call.toolName))
    else pure none
  let (decision, source, ruleId) := toolDecision (combinedSetting own parent) rule
  return { requestId, call, decision, source, ruleId }

def evaluateCalls (c : PermissionContext) :
    List ToolCallProjection → ServerProgram (List CallEvaluation)
  | [] => return []
  | call :: calls => do
    let evaluation ← evaluateCall c call
    let evaluations ← evaluateCalls c calls
    return evaluation :: evaluations

/-- The link under which a session was delegated. -/
def childLink (sessionId : String) (links : List AgentLinkRecord) : Option AgentLinkRecord :=
  links.find? (·.childSessionId = sessionId)

/-- The permission table the parent left for a child session. -/
def parentCeiling (sessionId : String) : ServerProgram (Option AgentPermissions) := do
  match childLink sessionId (← onStore (.agentLinks sessionId)) with
  | none => return none
  | some link => some <$> expect .json (AgentPermissions.ofJson? link.permissionCeiling)

/-- What the calls of a run are decided by. -/
def permissionContext (sessionId : String) (request : RunRequest) :
    ServerProgram PermissionContext := do
  let configured ← configuredAgent request.agentId
  let parentCeiling ← parentCeiling sessionId
  let session ← onStore (.getSession sessionId)
  return { sessionId, projectId := session.projectId, agentId := request.agentId
           configured, parentCeiling }

/-- The decisions about the unanswered calls of a run. -/
def decideCalls (sessionId : String) (run : RunProjection) :
    ServerProgram (PermissionContext × RunProjection × List CallEvaluation) := do
  let request ← expect .json (RunRequest.ofJson? run.request)
  let c ← permissionContext sessionId request
  let (_, run) ← loadRun sessionId run.runId
  let evaluations ← evaluateCalls c (run.toolCalls.values.filter (·.result.isNone))
  return (c, run, evaluations)

/-! ## Resuming -/

def resumeIfToolResultsReady (sessionId runId : String) : ServerProgram Bool := do
  let (_, run) ← loadRun sessionId runId
  if run.status = .requiresAction && run.toolCalls.values.all (·.result.isSome) then
    let _ ← append sessionId .queueResumed
    return true
  else return false

/-! ## Delegation -/

/-- A message copied into the context of a child. -/
def copiedMessage (message : MessageProjection) : Json :=
  .object [("message_id", .str message.messageId), ("role", .str (roleName message.role)),
    ("blocks", .arr (message.blocks.map ContentBlock.toJson))]

/-- The messages a delegation names; each must be known and closed. -/
def selectMessages (messages : List MessageProjection) :
    List String → Except StoreError (List MessageProjection)
  | [] => .ok []
  | messageId :: messageIds =>
    match (messages.find? (·.messageId = messageId)).filter (·.closed) with
    | none => .error (.invalidRequest "delegated context message is unknown or open")
    | some message => (selectMessages messages messageIds).map (message :: ·)

def resolveProvider (name : String) : ServerProgram ResolvedProvider := do
  match ← ask (.resolveProvider name) with
  | .ok provider => return provider
  | .error (.notFound name) => .fail (.providerNotFound name)
  | .error (.other message) => .fail (.providerUnavailable message)

/-- The permissions a parent's run leaves as the ceiling of its children. -/
def permissionCeiling (config : PiqoConfig) (request : RunRequest) : AgentPermissions :=
  ((request.agent.bind fun agent => (config.agent agent).toOption).map (·.permissions)).getD {}

/-- What a child session is made from. -/
structure Delegation where
  link : AgentLink
  task : String
  provider : String
  model : String
  references : List DelegatedContextRef
  copied : Json

/-- The checks of a delegation, and the creation of the child session with its link. -/
def admitDelegatedChild (parentSessionId parentRunId parentCallId : String) (arguments : Json) :
    ServerProgram Delegation := do
  let request ← expect
    (.invalidRequest "delegate requires agent, task, and context_message_ids")
    (DelegationRequest.ofJson? arguments)
  let config ← snapshot
  let child ← .ofExcept ((config.agent request.agent).mapError .invalidRequest)
  let provider ← expect (.invalidRequest "delegated agent must configure a provider") child.provider
  let model ← expect (.invalidRequest "delegated agent must configure a model") child.model
  let _ ← resolveProvider provider
  let limits := config.orchestration
  let parentDepth :=
    ((childLink parentSessionId (← onStore (.agentLinks parentSessionId))).map (·.depth)).getD 0
  if limits.maxDepth ≤ parentDepth then
    .fail (.invalidRequest "delegated agent depth limit exceeded")
  if limits.maxContextMessageIds < request.contextMessageIds.length then
    .fail (.invalidRequest "delegated context has too many messages")
  let (parentProjection, parentRun) ← loadRun parentSessionId parentRunId
  let parentRequest ← expect .json (RunRequest.ofJson? parentRun.request)
  let ceiling := (permissionCeiling config parentRequest).toJson
  let messages ← .ofExcept (selectMessages parentProjection.messages request.contextMessageIds)
  let references := messages.map fun message =>
    { sourceSessionId := parentSessionId, messageId := message.messageId
      lastEventId := message.lastEventId }
  let copied := Json.arr (messages.map copiedMessage)
  if limits.maxContextBytes < copied.size then
    .fail (.invalidRequest "delegated context exceeds the byte limit")
  let parentSession ← onStore (.getSession parentSessionId)
  let childSession ← onStore (.createSession (← ask .newUuid) (← ask .readClock)
    (some ("Delegated: " ++ request.agent)) parentSession.projectId)
  let instanceId ← ask .newUuid
  let childRunId ← ask .newUuid
  let budget : AgentBudget := {
    maxModelTurns := limits.maxChildModelTurns
    maxDurationSeconds := limits.maxChildDurationSeconds
    maxTreeDurationSeconds := limits.maxTreeDurationSeconds
    maxTreeTokens := limits.maxTreeTokens
    maxContextBytes := limits.maxContextBytes
    maxResultBytes := limits.maxResultBytes }
  let link : AgentLink := {
    instanceId, profileId := request.agent, parentSessionId, parentRunId, parentCallId
    childSessionId := childSession.id, childRunId
    -- the depth is a `u8`
    depth := min (parentDepth + 1) 255, budget, permissionCeiling := ceiling }
  onStore (.createAgentLink {
    instanceId, profileId := request.agent, parentSessionId, parentRunId, parentCallId
    childSessionId := childSession.id, childRunId, depth := link.depth, budget
    permissionCeiling := ceiling, createdAt := ← ask .readClock })
  return { link, task := request.task, provider, model, references, copied }

/-- Record the child in both sessions, queue its run and start its worker. -/
def startDelegatedChild (parentAgentId : String) (d : Delegation) : ServerProgram Unit := do
  let spawned := SemanticEvent.agentSpawned d.link.instanceId (some parentAgentId) (some d.link) none
  let _ ← append d.link.parentSessionId spawned
  let childSessionId := d.link.childSessionId
  let _ ← appendMany childSessionId [
    spawned,
    .agentContextCaptured d.link.instanceId d.references,
    .messageStarted (← ask .newUuid) parentAgentId .system (.agent parentAgentId)]
  let child ← onStore (.projection childSessionId)
  let contextMessage ← expect
    (.corruptSession childSessionId "delegated context message was not projected")
    child.messages.getLast?
  let request : RunRequest := {
    provider := d.provider, model := d.model, input := .str d.task, agent := some d.link.profileId
    variant := none, body := .obj [] }
  let _ ← appendMany childSessionId [
    .messageContentAppended contextMessage.messageId (.json (.object [
      ("delegated_from", .str d.link.parentSessionId), ("messages", d.copied)])),
    .messageCompleted contextMessage.messageId,
    .runQueued d.link.childRunId none d.provider d.model request.toJson]
  spawnWorker childSessionId

def spawnDelegatedChild (parentSessionId parentRunId parentCallId parentAgentId : String)
    (arguments : Json) : ServerProgram Unit := do
  let delegation ← admitDelegatedChild parentSessionId parentRunId parentCallId arguments
  startDelegatedChild parentAgentId delegation

/-- The events a delegation appends. -/
def SemanticEvent.delegates : SemanticEvent → Bool
  | .agentSpawned _ _ _ _ | .agentContextCaptured _ _ | .messageStarted _ _ _ _
  | .messageContentAppended _ _ | .messageCompleted _ | .runQueued _ _ _ _ _ => true
  | _ => false

/-- The operations of a delegation. -/
def ServerOp.delegates : ServerOp → Bool
  | .store (.append _ events) => events.all (·.delegates)
  | .store (.createSession _ _ _ _) | .store (.createAgentLink _) | .store (.agentLinks _)
  | .store (.projection _) | .store (.getSession _) => true
  | .store _ => false
  | .external .configSnapshot | .external (.resolveProvider _) | .external .newUuid
  | .external .readClock => true
  | op => op.routine

theorem ServerOp.delegates_of_routine {op : ServerOp} (h : op.routine = true) :
    op.delegates = true := by
  unfold ServerOp.routine at h
  split at h
  · rfl
  · rfl
  · rfl
  · rfl
  · cases h

theorem admitDelegatedChild_only (parentSessionId parentRunId parentCallId : String)
    (arguments : Json) : (admitDelegatedChild parentSessionId parentRunId parentCallId
      arguments).Only fun op : ServerOp => op.delegates = true := by
  unfold admitDelegatedChild
  refine only_expect fun request => only_snapshot rfl fun config => (Program.Only.ofExcept _).bind
    fun child => only_expect fun provider => only_expect fun model => ?_
  have hprovider : (resolveProvider provider).Only fun op : ServerOp => op.delegates = true := by
    refine only_ask rfl fun reply => ?_
    rcases reply with (_ | _) | _ <;> trivial
  refine hprovider.bind fun _ => only_onStore rfl fun links => ?_
  refine iteInduction (fun _ => .fail _) fun _ => iteInduction (fun _ => .fail _) fun _ => ?_
  refine only_loadRun rfl fun _ => only_expect fun _ => (Program.Only.ofExcept _).bind fun _ => ?_
  refine iteInduction (fun _ => .fail _) fun _ => ?_
  refine only_onStore rfl fun _ => only_ask rfl fun _ => only_ask rfl fun _ => ?_
  refine only_onStore rfl fun _ => only_ask rfl fun _ => only_ask rfl fun _ => ?_
  exact only_ask rfl fun _ => only_onStore rfl fun _ => .ret _

theorem startDelegatedChild_only (parentAgentId : String) (d : Delegation) :
    (startDelegatedChild parentAgentId d).Only fun op : ServerOp => op.delegates = true := by
  unfold startDelegatedChild
  refine (only_append (fun _ => ServerOp.delegates_of_routine) (by rfl)).bind fun _ => ?_
  refine only_ask rfl fun _ => (only_appendMany (fun _ => ServerOp.delegates_of_routine) (by rfl)).bind
    fun _ => ?_
  refine only_onStore rfl fun _ => only_expect fun _ => ?_
  refine (only_appendMany (fun _ => ServerOp.delegates_of_routine) (by rfl)).bind fun _ => ?_
  exact only_spawnWorker fun _ => ServerOp.delegates_of_routine

/-- What a delegation calls. -/
theorem spawnDelegatedChild_only (parentSessionId parentRunId parentCallId parentAgentId : String)
    (arguments : Json) : (spawnDelegatedChild parentSessionId parentRunId parentCallId
      parentAgentId arguments).Only fun op : ServerOp => op.delegates = true :=
  (admitDelegatedChild_only _ _ _ _).bind fun _ => startDelegatedChild_only _ _

/-! ## Execution -/

/-- A call the executor may claim: native, without claim or result, and allowed. -/
def SessionProjection.claimable (p : SessionProjection) (runId : String)
    (call : ToolCallProjection) : Bool :=
  call.native && call.result.isNone && call.executionId.isNone &&
    p.pendingPermissions.values.any fun permission =>
      permission.runId = runId && permission.callId = some call.callId &&
        permission.decision = some .allow

/-- The result of a rejected delegation. -/
def delegateRejected (e : StoreError) : Json :=
  .object [("error", .object [("code", .str "delegate_rejected"), ("message", .str e.message)])]

/-- The result of an MCP call. -/
def mcpResult : Except McpError Json → Json
  | .ok result => result
  | .error .invalidArguments => .object [("error", .object [("code", .str "invalid_tool_arguments")])]
  | .error .resultTooLarge => .object [("error", .object [("code", .str "mcp_result_too_large")])]
  | .error .other => .object [("error", .object [("code", .str "mcp_execution_uncertain")])]

/-- Run a native tool in the workspace of the project. -/
def executeNativeTool (project : Option Project) (tool : NativeTool) (arguments : Json) :
    ServerProgram Json := do
  let project ← expect (.invalidRequest "native tools require a project-backed session") project
  let _ ← snapshot
  match ← ask (.openExecutor project.path) with
  | .error message => .fail (.invalidRequest message)
  | .ok () => ask (.executeNative tool arguments)

/-- The effect of a claimed call, and its result; a delegation that succeeds has none yet. -/
def executeCall (sessionId runId : String) (project : Option Project) (call : ToolCallProjection) :
    ServerProgram (Option Json) := do
  ask (.beginEffect runId call.callId)
  if call.toolName = "delegate" then
    match ← (spawnDelegatedChild sessionId runId call.callId call.agentId call.arguments).attempt with
    | .ok () => return none
    | .error .panicked => .fail .panicked
    | .error e => return some (delegateRejected e)
  match NativeTool.parse call.toolName with
  | some tool => some <$> executeNativeTool project tool call.arguments
  | none => return some (mcpResult (← ask (.mcpCall call.toolName call.arguments)))

/-- Claim the call, execute it, and record its result. -/
def claimAndExecute (sessionId runId : String) (project : Option Project)
    (call : ToolCallProjection) : ServerProgram Unit := do
  let executionId ← ask .newUuid
  let _ ← append sessionId (.toolExecutionStarted runId call.callId executionId)
  match ← executeCall sessionId runId project call with
  | none => return ()
  | some result =>
    let _ ← append sessionId (.toolResult runId call.callId call.agentId call.toolName result)
    return ()

/-- The loop of `execute_approved_native_calls`. -/
def executeApprovedCalls (sessionId runId : String) (project : Option Project) :
    Nat → ServerProgram Unit
  | 0 => .fail .diverged
  | fuel + 1 => do
    let (projection, run) ← loadRun sessionId runId
    match run.toolCalls.values.find? (projection.claimable runId) with
    | none => return ()
    | some call =>
      claimAndExecute sessionId runId project call
      executeApprovedCalls sessionId runId project fuel

/-- The project of a session. -/
def sessionProject (sessionId : String) : ServerProgram (Option Project) := do
  match (← onStore (.getSession sessionId)).projectId with
  | none => return none
  | some projectId => some <$> onStore (.getProject projectId)

def executeApprovedNativeCalls (fuel : Nat) (sessionId runId : String) : ServerProgram Bool := do
  let project ← sessionProject sessionId
  executeApprovedCalls sessionId runId project fuel
  resumeIfToolResultsReady sessionId runId

/-! ## Permissions -/

def evaluateToolPermissions (fuel : Nat) (sessionId : String) (run : RunProjection) :
    ServerProgram Unit := do
  let (c, run, evaluations) ← decideCalls sessionId run
  let _ ← appendMany sessionId (evaluations.flatMap (·.events run.runId c.agentId))
  if evaluations.all (·.decision ≠ .ask) then
    let _ ← executeApprovedNativeCalls fuel sessionId run.runId
    return ()

/-- The durable rule an approval leaves. -/
def approvalRule (sessionId : String) (session : SessionSummary) (request : PermissionProjection)
    (scope : Option PermissionScope) : ServerProgram (Option PermissionRuleRecord) := do
  let create (scope : PermissionScope) (sessionId projectId : Option String) := do
    let id ← ask .newUuid
    let createdAt ← ask .readClock
    some <$> onStore (.createPermissionRule {
      id, scope, sessionId, projectId, agentId := request.agentId, toolName := request.toolName
      createdAt })
  match scope with
  | none | some .once => return none
  | some .session => create .session (some sessionId) none
  | some .project => match session.projectId with
    | none => .fail .invalidPermissionScope
    | some projectId => create .project none (some projectId)
  | some .configuration => create .configuration none none

/-- `approve_permission` and `deny_permission`. -/
def resolvePermission (fuel : Nat) (sessionId runId requestId : String)
    (decision : PermissionDecision) (scope : Option PermissionScope) : ServerProgram Unit := do
  if ← ask .isShutdown then .fail .shuttingDown
  ensureSessionMutable sessionId
  let projection ← onStore (.projection sessionId)
  let request ← expect (.invalidRequest "permission request was not found")
    (projection.pendingPermissions.get? requestId)
  if request.runId ≠ runId then
    .fail (.invalidRequest "permission request does not belong to run")
  match request.decision with
  | some existing =>
    if existing = decision then return ()
    else .fail (.conflict "permission resolution conflicts with the recorded decision")
  | none =>
    if decision = .deny ∧ scope.isSome then .fail .invalidPermissionScope
    let session ← onStore (.getSession sessionId)
    let rule ← approvalRule sessionId session request scope
    let resolved := SemanticEvent.permissionResolved requestId decision (some .requestApproval) scope
      (rule.map (·.id)) none
    match decision with
    | .deny =>
      let callId ← expect (.invalidRequest "permission request has no tool call") request.callId
      let _ ← appendMany sessionId
        [resolved, .toolResult runId callId request.agentId request.toolName permissionDenied]
      if ← resumeIfToolResultsReady sessionId runId then spawnWorker sessionId
    | .allow =>
      let _ ← appendMany sessionId [resolved]
      if ← executeApprovedNativeCalls fuel sessionId runId then spawnWorker sessionId
    | .ask =>
      let _ ← appendMany sessionId [resolved]
      return ()

end Piqo
