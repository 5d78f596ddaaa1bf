import PiqoServer.Server.Actions

/-!
# Compaction

`build_compacted_body` (`piqo-server/src/supervisor.rs`) builds the body of a provider request. A
conversation that comes near the context window is compacted first: all but the last four of the
messages that no summary covers are selected, a summary of them is made, and the artifact that
records it hides every message up to the last event of the last one selected.

## Main definitions

* `bodyTokenEstimate`: the size of a body in tokens, as it is estimated
* `SessionProjection.compactable`, `SessionProjection.selected`: the messages a summary is made of
* `summarizeContext`, `deterministicSummary`: the summary
* `buildCompactedBody`: the body, compacted where it must be
-/

namespace Piqo

/-! ## Estimates -/

/-- `estimate_tokens`; no body comes near the range of `u64`. -/
def estimateTokens (serializedBytes transcriptItems toolDefinitions : Nat) : Nat :=
  (serializedBytes + 2) / 3 + (transcriptItems + toolDefinitions) * 8

/-- `Value::as_array`. -/
def Json.asArray? : Json → Option (List Json)
  | .arr items => some items
  | _ => none

def bodyTokenEstimate (body : Json) : Nat :=
  estimateTokens body.size
    ((((body.get "messages").or (body.get "input")).bind Json.asArray?).elim 0 List.length)
    (((body.get "tools").bind Json.asArray?).elim 0 List.length)

/-- What a run is built from. -/
structure CompactionInputs where
  request : RunRequest
  config : PiqoConfig
  provider : ResolvedProvider
  nativeTools : List NativeTool
  mcpTools : List McpToolDefinition

/-- The body without compaction. -/
def CompactionInputs.body (inputs : CompactionInputs) (p : SessionProjection) :
    Except StoreError Json :=
  buildBody inputs.config inputs.provider.protocol inputs.request p inputs.nativeTools
    inputs.mcpTools

/-- The request brings its own transcript. -/
def RunRequest.ownTranscript (request : RunRequest) : Bool :=
  (request.body.get "messages").isSome || (request.body.get "input").isSome

/-- The tokens that a body may have before the conversation is compacted. -/
def triggerTokens (config : PiqoConfig) (inputBudget : Nat) : Nat :=
  ((inputBudget : Rat) * config.context.triggerRatio).ceil.toNat

def targetTokens (config : PiqoConfig) (inputBudget : Nat) : Nat :=
  ((inputBudget : Rat) * config.context.targetRatio).floor.toNat

/-! ## Selection -/

namespace SessionProjection

/-- The closed messages that no summary covers. -/
def compactable (p : SessionProjection) : List MessageProjection :=
  (p.messages.filter (·.closed)).filter (uncovered p.context.activeArtifact)

/-- All but the last four of them. -/
def selected (p : SessionProjection) : List MessageProjection :=
  p.compactable.take (p.compactable.length - 4)

/-- The calls of messages up to an event. -/
def toolCorrelations (p : SessionProjection) (sourceEndEventId : Nat) : List ToolCorrelation :=
  p.runs.values.flatMap fun run => (run.toolCalls.values.filter fun call =>
    (p.messages.find? (·.messageId = call.assistantMessageId)).any
      (·.lastEventId ≤ sourceEndEventId)).map fun call =>
        { callId := call.callId, toolName := call.toolName, runId := run.runId }

/-- The projection under another summary. -/
def withArtifact (p : SessionProjection) (artifact : ContextArtifact) : SessionProjection :=
  { p with context := { p.context with activeArtifact := some artifact } }

end SessionProjection

/-! ## Summaries -/

def deterministicSummary (messages : List MessageProjection) : String :=
  toString messages.length ++ " earlier messages were compacted deterministically; " ++
    "inspect the durable event log for verbatim history."

/-- What a model is asked. -/
def summaryPrompt (selected : List MessageProjection) : String :=
  "Return JSON only: \x7b\"summary\":\"...\"\x7d. Summarize this closed conversation faithfully, " ++
    "retaining decisions, facts, and unfinished work: " ++
    (Json.arr (selected.map fun message => .object [("role", .str (roleName message.role)),
      ("content", .arr (message.blocks.map ContentBlock.toJson))])).render

/-- The body of the request for a summary. -/
def summaryRequestBody (config : PiqoConfig) (protocol : ProviderProtocol) (request : RunRequest)
    (selected : List MessageProjection) : Except StoreError Json :=
  let compaction := config.context.compaction
  let body := if compaction.summaryBody.isNull then .obj [] else compaction.summaryBody
  match body.asObject? with
  | none => .error (.invalidRequest "context compaction summary_body must be an object")
  | some fields =>
    let prompt := Json.arr [.object [("role", .str "user"), ("content", .str (summaryPrompt selected))]]
    let fields := SortedMap.insertEntry "stream" (.bool false)
      (SortedMap.insertEntry "model" (.str (compaction.summaryModel.getD request.model)) fields)
    let maximum := Json.num compaction.summaryMaxOutputTokens
    match protocol with
    | .chatCompletions => .ok (.obj (SortedMap.insertEntry "messages" prompt
        (SortedMap.insertEntry "max_tokens" maximum fields)))
    | .responses => .ok (.obj (SortedMap.insertEntry "input" prompt
        (SortedMap.insertEntry "max_output_tokens" maximum fields)))

/-- The attempts to have a summary made. -/
def attemptSummary (body : Json) : Nat → ServerProgram String
  | 0 => .fail (.invalidRequest "context_compaction_failed")
  | attempts + 1 => do
    match ← ask (.summarize body) with
    | .cancelled => .fail (.invalidRequest "context_compaction_cancelled")
    | .failed => .fail (.invalidRequest "context_compaction_failed")
    | .text (some summary) => return summary
    | .rejected | .text none => attemptSummary body attempts

/-- A provider for summaries that is not the run's must resolve. -/
def resolveSummaryProvider (inputs : CompactionInputs) : ServerProgram Unit := do
  let summaryProvider :=
    inputs.config.context.compaction.summaryProvider.getD inputs.request.provider
  if summaryProvider = inputs.request.provider then return ()
  else match ← ask (.resolveProvider summaryProvider) with
    | .ok _ => return ()
    | .error (.notFound name) =>
      .fail (.providerUnavailable s!"provider {name} is not configured")
    | .error (.other message) => .fail (.providerUnavailable message)

/-- The HTTP request for a body must be valid. -/
def checkRequest (body : Json) : ServerProgram Unit := do
  match ← ask (.buildRequest body) with
  | .error message => .fail (.invalidRequest message)
  | .ok () => return ()

def summarizeContext (inputs : CompactionInputs) (selected : List MessageProjection) :
    ServerProgram String := do
  let body ← .ofExcept
    (summaryRequestBody inputs.config inputs.provider.protocol inputs.request selected)
  resolveSummaryProvider inputs
  checkRequest body
  attemptSummary body (inputs.config.context.compaction.maxRetries + 1)

/-! ## The compacted body -/

/-- The budget of the run's model. -/
def contextBudget (request : RunRequest) : ServerProgram ResolvedContextBudget := do
  match ← ask .configSnapshot with
  | .error message => .fail (.invalidRequest message)
  | .ok config =>
    let metadata ← ask (.modelMetadata request.provider request.model)
    .ofExcept ((config.contextBudget request.provider request.model metadata).mapError
      .invalidRequest)

def contextEstimatorVersion : String := "utf8_bytes_v1"

/-- The artifact of a compaction, but for its id and its summary. -/
def compactionArtifact (inputs : CompactionInputs) (p : SessionProjection)
    (budget : ResolvedContextBudget) (estimate target : Nat) (first last : MessageProjection)
    (artifactId summary : String) : ContextArtifact where
  artifactId := artifactId
  supersedesArtifactId := p.context.activeArtifact.map (·.artifactId)
  strategy := inputs.config.context.compaction.strategy
  strategyVersion := 1
  sourceStartEventId := (p.context.activeArtifact.map (·.sourceStartEventId)).getD first.firstEventId
  sourceEndEventId := last.lastEventId
  contextWindowTokens := budget.contextWindowTokens
  outputReserveTokens := budget.outputReserveTokens
  estimatedInputTokens := estimate
  targetInputTokens := target
  estimatorVersion := contextEstimatorVersion
  summary := summary
  toolCorrelations := p.toolCorrelations last.lastEventId

/-- The summary of the selected messages; that it fails is recorded. -/
def compactionSummary (sessionId runId : String) (inputs : CompactionInputs) (artifactId : String)
    (selected : List MessageProjection) : ServerProgram String :=
  match inputs.config.context.compaction.strategy with
  | .deterministic => return deterministicSummary selected
  | .llm => do
    match ← (summarizeContext inputs selected).attempt with
    | .ok summary => return summary
    | .error e =>
      let _ ← append sessionId
        (.contextCompactionFailed runId artifactId "context_compaction_failed")
      .fail e

/-- That the conversation does not fit is recorded. -/
def budgetExceeded (sessionId runId artifactId : String) : ServerProgram Json := do
  let _ ← append sessionId (.contextCompactionFailed runId artifactId "context_budget_exceeded")
  .fail (.invalidRequest "context_budget_exceeded")

/-- Summarise the selected messages, and build the body behind the summary. -/
def compact (sessionId runId : String) (inputs : CompactionInputs) (p : SessionProjection)
    (budget : ResolvedContextBudget) (inputBudget estimate : Nat) (first last : MessageProjection) :
    ServerProgram Json := do
  let artifactId ← ask .newUuid
  let artifact := compactionArtifact inputs p budget estimate
    (targetTokens inputs.config inputBudget) first last artifactId
  let _ ← append sessionId (.contextCompactionStarted runId artifactId
    inputs.config.context.compaction.strategy (artifact "").sourceStartEventId
    (artifact "").sourceEndEventId)
  let summary ← compactionSummary sessionId runId inputs artifactId p.selected
  let compacted ← .ofExcept (inputs.body (p.withArtifact (artifact summary)))
  if inputBudget < bodyTokenEstimate compacted then budgetExceeded sessionId runId artifactId
  else
    let _ ← append sessionId (.contextCompacted runId (artifact summary))
    return compacted

def buildCompactedBody (sessionId runId : String) (inputs : CompactionInputs) :
    ServerProgram Json := do
  if inputs.request.ownTranscript then
    let _ ← append sessionId (.contextCompactionBypassed runId "caller_owned_transcript")
    let projection ← onStore (.projection sessionId)
    .ofExcept (inputs.body projection)
  else
    let projection ← onStore (.projection sessionId)
    let body ← .ofExcept (inputs.body projection)
    let estimate := bodyTokenEstimate body
    let budget ← contextBudget inputs.request
    if budget.contextWindowTokens < budget.outputReserveTokens then
      .fail (.invalidRequest "invalid context budget")
    let inputBudget := budget.contextWindowTokens - budget.outputReserveTokens
    if estimate < triggerTokens inputs.config inputBudget then return body
    else match projection.selected with
      | [] => budgetExceeded sessionId runId (← ask .newUuid)
      | first :: rest =>
        compact sessionId runId inputs projection budget inputBudget estimate first
          ((first :: rest).getLast (by simp))

end Piqo
