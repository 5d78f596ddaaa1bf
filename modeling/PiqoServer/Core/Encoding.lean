import PiqoServer.Core.Event

/-!
# The encoding of events

Events are stored as serde encodes them: an object with the name of the variant under `type` and
its fields under `data`, which a variant without fields leaves out. A record is an object with
one field for each of its own; an absent optional field is `null`. Reading ignores fields it does
not know, takes a missing optional field as absent and a missing defaulted field as its default.
Only the object form is read here, which is the form that is written.

## Main definitions

* `Json.required`, `Json.optional`, `Json.defaulted`: reading a field of a record
* `SemanticEvent.typeName`, `SemanticEvent.data?`, `SemanticEvent.toJson`: the encoding
* `SemanticEvent.read`: the decoding
* `SemanticEvent.Sized`: the integers of an event fit the types of their fields

## Main results

* `SemanticEvent.read_toJson`: an event that is written and read back is its `reload`
* `SemanticEvent.reload_read`: an event that was read survives being stored again
-/

namespace Piqo

/-! ## Reading records -/

namespace Json

variable {α : Type}

/-- A field that must be there. -/
def required (v : Json) (key : String) (read : Json → Option α) : Option α :=
  (v.get key).bind read

/-- An optional value: absent when it is missing or `null`. -/
def readOptional (read : Json → Option α) : Option Json → Option (Option α)
  | none => some none
  | some null => some none
  | some field => (read field).map some

/-- An `Option` field. -/
def optional (v : Json) (key : String) (read : Json → Option α) : Option (Option α) :=
  readOptional read (v.get key)

/-- A field with a default. -/
def defaulted (v : Json) (key : String) (default : α) (read : Json → Option α) : Option α :=
  match v.get key with
  | none => some default
  | some field => read field

/-- An unsigned integer of `bits` bits. -/
def readUInt (bits : Nat) : Json → Option Nat
  | num n => if 0 ≤ n ∧ n.toNat < 2 ^ bits then some n.toNat else none
  | _ => none

def readList (read : Json → Option α) : Json → Option (List α)
  | arr items => items.mapM read
  | _ => none

/-- A `Value` is any value. -/
def readValue (v : Json) : Option Json := some v

/-- An unsigned integer of `bits` bits can hold `n`. -/
def FitsUInt (bits n : Nat) : Prop := n < 2 ^ bits

/-- Read a record, which is an object. -/
def readRecord (read : Json → Option α) (v : Json) : Option α :=
  if v.asObject?.isSome then read v else none

/-- A variant without fields, by its name. -/
def readVariant (name : α → String) (variants : List α) (v : Json) : Option α :=
  v.asStr?.bind fun s => variants.find? fun variant => name variant = s

/-- An unsigned integer. -/
def ofNat (n : Nat) : Json := num n

/-- An `Option` field. -/
def ofOptional (write : α → Json) : Option α → Json
  | some a => write a
  | none => null

def ofList (write : α → Json) (items : List α) : Json := arr (items.map write)

end Json

/-! ## Variants without fields -/

def AgentPhase.name : AgentPhase → String
  | .created => "created"
  | .running => "running"
  | .waitingForPermission => "waiting_for_permission"
  | .finished => "finished"
  | .failed => "failed"

def AgentPhase.read : Json → Option AgentPhase :=
  Json.readVariant name [.created, .running, .waitingForPermission, .finished, .failed]

def SessionPhase.name : SessionPhase → String
  | .created => "created"
  | .running => "running"
  | .interrupted => "interrupted"
  | .finished => "finished"
  | .failed => "failed"

def SessionPhase.read : Json → Option SessionPhase :=
  Json.readVariant name [.created, .running, .interrupted, .finished, .failed]

def MessageRole.name : MessageRole → String
  | .system => "system"
  | .user => "user"
  | .assistant => "assistant"
  | .tool => "tool"

def MessageRole.read : Json → Option MessageRole :=
  Json.readVariant name [.system, .user, .assistant, .tool]

/-- The one enumeration that is written under its Rust names. -/
def PermissionDecision.name : PermissionDecision → String
  | .allow => "Allow"
  | .ask => "Ask"
  | .deny => "Deny"

def PermissionDecision.read : Json → Option PermissionDecision :=
  Json.readVariant name [.allow, .ask, .deny]

def PermissionScope.name : PermissionScope → String
  | .once => "once"
  | .session => "session"
  | .project => "project"
  | .configuration => "configuration"

def PermissionScope.read : Json → Option PermissionScope :=
  Json.readVariant name [.once, .session, .project, .configuration]

def PermissionDecisionSource.name : PermissionDecisionSource → String
  | .default => "default"
  | .configuration => "configuration"
  | .interactiveConfiguration => "interactive_configuration"
  | .projectRule => "project_rule"
  | .sessionRule => "session_rule"
  | .requestApproval => "request_approval"

def PermissionDecisionSource.read : Json → Option PermissionDecisionSource :=
  Json.readVariant name
    [.default, .configuration, .interactiveConfiguration, .projectRule, .sessionRule,
      .requestApproval]

def AgentTerminalStatus.name : AgentTerminalStatus → String
  | .completed => "completed"
  | .failed => "failed"
  | .cancelled => "cancelled"
  | .interrupted => "interrupted"

def AgentTerminalStatus.read : Json → Option AgentTerminalStatus :=
  Json.readVariant name [.completed, .failed, .cancelled, .interrupted]

def CompactionStrategy.name : CompactionStrategy → String
  | .deterministic => "deterministic"
  | .llm => "llm"

def CompactionStrategy.read : Json → Option CompactionStrategy :=
  Json.readVariant name [.deterministic, .llm]

/-! ## Tagged variants -/

/-- A variant under a tag, with its content when it has one. -/
def Json.tagged (tag content name : String) (value : Option Json) : Json :=
  Json.object ((tag, .str name) :: value.toList.map (content, ·))

def MessageAuthor.toJson : MessageAuthor → Json
  | .system => .tagged "kind" "id" "system" none
  | .user => .tagged "kind" "id" "user" none
  | .agent id => .tagged "kind" "id" "agent" (some (.str id))
  | .tool id => .tagged "kind" "id" "tool" (some (.str id))

/-- A variant without content may still carry a `null`. -/
def Json.noContent (v : Option Json) : Bool := v.all Json.isNull

def MessageAuthor.read (v : Json) : Option MessageAuthor :=
  (v.required "kind" Json.asStr?).bind fun kind => match kind with
    | "system" => if Json.noContent (v.get "id") then some .system else none
    | "user" => if Json.noContent (v.get "id") then some .user else none
    | "agent" => (v.required "id" Json.asStr?).map .agent
    | "tool" => (v.required "id" Json.asStr?).map .tool
    | _ => none

def ContentBlock.toJson : ContentBlock → Json
  | .text s => .object [("kind", .str "text"), ("value", .str s)]
  | .json v => .object [("kind", .str "json"), ("value", v)]

def ContentBlock.read (v : Json) : Option ContentBlock :=
  (v.required "kind" Json.asStr?).bind fun kind => match kind with
    | "text" => (v.required "value" Json.asStr?).map .text
    | "json" => (v.required "value" Json.readValue).map .json
    | _ => none

/-! ## Records -/

def AgentBudget.toJson (b : AgentBudget) : Json := .object
  [("max_model_turns", .ofNat b.maxModelTurns),
    ("max_duration_seconds", .ofNat b.maxDurationSeconds),
    ("max_tree_duration_seconds", .ofNat b.maxTreeDurationSeconds),
    ("max_tree_tokens", .ofNat b.maxTreeTokens),
    ("max_context_bytes", .ofNat b.maxContextBytes),
    ("max_result_bytes", .ofNat b.maxResultBytes)]

def AgentBudget.read : Json → Option AgentBudget := Json.readRecord fun v => do
  return {
    maxModelTurns := ← v.required "max_model_turns" (Json.readUInt 32)
    maxDurationSeconds := ← v.required "max_duration_seconds" (Json.readUInt 64)
    maxTreeDurationSeconds := ← v.required "max_tree_duration_seconds" (Json.readUInt 64)
    maxTreeTokens := ← v.required "max_tree_tokens" (Json.readUInt 64)
    maxContextBytes := ← v.required "max_context_bytes" (Json.readUInt 64)
    maxResultBytes := ← v.required "max_result_bytes" (Json.readUInt 64) }

def AgentLink.toJson (l : AgentLink) : Json := .object
  [("instance_id", .str l.instanceId),
    ("profile_id", .str l.profileId),
    ("parent_session_id", .str l.parentSessionId),
    ("parent_run_id", .str l.parentRunId),
    ("parent_call_id", .str l.parentCallId),
    ("child_session_id", .str l.childSessionId),
    ("child_run_id", .str l.childRunId),
    ("depth", .ofNat l.depth),
    ("budget", l.budget.toJson),
    ("permission_ceiling", l.permissionCeiling)]

def AgentLink.read : Json → Option AgentLink := Json.readRecord fun v => do
  return {
    instanceId := ← v.required "instance_id" Json.asStr?
    profileId := ← v.required "profile_id" Json.asStr?
    parentSessionId := ← v.required "parent_session_id" Json.asStr?
    parentRunId := ← v.required "parent_run_id" Json.asStr?
    parentCallId := ← v.required "parent_call_id" Json.asStr?
    childSessionId := ← v.required "child_session_id" Json.asStr?
    childRunId := ← v.required "child_run_id" Json.asStr?
    depth := ← v.required "depth" (Json.readUInt 8)
    budget := ← v.required "budget" AgentBudget.read
    permissionCeiling := ← v.required "permission_ceiling" Json.readValue }

def AgentResult.toJson (r : AgentResult) : Json :=
  .object [("instance_id", .str r.instanceId), ("profile_id", .str r.profileId),
    ("child_session_id", .str r.childSessionId), ("child_run_id", .str r.childRunId),
    ("status", .str r.status.name), ("output", .ofOption r.output),
    ("output_truncated", .bool r.outputTruncated), ("usage", .ofOption r.usage),
    ("error", .ofOptional .str r.error)]

def AgentResult.read : Json → Option AgentResult := Json.readRecord fun v => do
  return {
    instanceId := ← v.required "instance_id" Json.asStr?
    profileId := ← v.required "profile_id" Json.asStr?
    childSessionId := ← v.required "child_session_id" Json.asStr?
    childRunId := ← v.required "child_run_id" Json.asStr?
    status := ← v.required "status" AgentTerminalStatus.read
    output := ← v.optional "output" Json.readValue
    outputTruncated := ← v.required "output_truncated" Json.asBool?
    usage := ← v.optional "usage" Json.readValue
    error := ← v.optional "error" Json.asStr? }

def DelegatedContextRef.toJson (r : DelegatedContextRef) : Json := .object
  [("source_session_id", .str r.sourceSessionId),
    ("message_id", .str r.messageId),
    ("last_event_id", .ofNat r.lastEventId)]

def DelegatedContextRef.read : Json → Option DelegatedContextRef := Json.readRecord fun v => do
  return {
    sourceSessionId := ← v.required "source_session_id" Json.asStr?
    messageId := ← v.required "message_id" Json.asStr?
    lastEventId := ← v.required "last_event_id" (Json.readUInt 64) }

def ContextFact.toJson (f : ContextFact) : Json := .object
  [("fact_id", .str f.factId), ("value", .str f.value)]

def ContextFact.read : Json → Option ContextFact := Json.readRecord fun v => do
  return {
    factId := ← v.required "fact_id" Json.asStr?
    value := ← v.required "value" Json.asStr? }

def ToolCorrelation.toJson (c : ToolCorrelation) : Json := .object
  [("call_id", .str c.callId), ("tool_name", .str c.toolName), ("run_id", .str c.runId)]

def ToolCorrelation.read : Json → Option ToolCorrelation := Json.readRecord fun v => do
  return {
    callId := ← v.required "call_id" Json.asStr?
    toolName := ← v.required "tool_name" Json.asStr?
    runId := ← v.required "run_id" Json.asStr? }

def ContextArtifact.toJson (a : ContextArtifact) : Json := .object
  [("artifact_id", .str a.artifactId),
    ("supersedes_artifact_id", .ofOptional .str a.supersedesArtifactId),
    ("strategy", .str a.strategy.name),
    ("strategy_version", .ofNat a.strategyVersion),
    ("source_start_event_id", .ofNat a.sourceStartEventId),
    ("source_end_event_id", .ofNat a.sourceEndEventId),
    ("context_window_tokens", .ofNat a.contextWindowTokens),
    ("output_reserve_tokens", .ofNat a.outputReserveTokens),
    ("estimated_input_tokens", .ofNat a.estimatedInputTokens),
    ("target_input_tokens", .ofNat a.targetInputTokens),
    ("estimator_version", .str a.estimatorVersion),
    ("summary", .str a.summary),
    ("tool_correlations", .ofList ToolCorrelation.toJson a.toolCorrelations)]

def ContextArtifact.read : Json → Option ContextArtifact := Json.readRecord fun v => do
  return {
    artifactId := ← v.required "artifact_id" Json.asStr?
    supersedesArtifactId := ← v.optional "supersedes_artifact_id" Json.asStr?
    strategy := ← v.required "strategy" CompactionStrategy.read
    strategyVersion := ← v.required "strategy_version" (Json.readUInt 16)
    sourceStartEventId := ← v.required "source_start_event_id" (Json.readUInt 64)
    sourceEndEventId := ← v.required "source_end_event_id" (Json.readUInt 64)
    contextWindowTokens := ← v.required "context_window_tokens" (Json.readUInt 64)
    outputReserveTokens := ← v.required "output_reserve_tokens" (Json.readUInt 64)
    estimatedInputTokens := ← v.required "estimated_input_tokens" (Json.readUInt 64)
    targetInputTokens := ← v.required "target_input_tokens" (Json.readUInt 64)
    estimatorVersion := ← v.required "estimator_version" Json.asStr?
    summary := ← v.required "summary" Json.asStr?
    toolCorrelations := ← v.defaulted "tool_correlations" []
      (Json.readList ToolCorrelation.read) }

/-! ## Events -/

namespace SemanticEvent

/-- The name of a variant. -/
def typeName : SemanticEvent → String
  | .sessionCreated .. => "session_created"
  | .sessionPhaseChanged .. => "session_phase_changed"
  | .sessionInterrupted .. => "session_interrupted"
  | .sessionForked .. => "session_forked"
  | .messageStarted .. => "message_started"
  | .messageContentAppended .. => "message_content_appended"
  | .messageCompleted .. => "message_completed"
  | .messageInterrupted .. => "message_interrupted"
  | .runQueued .. => "run_queued"
  | .runStarted .. => "run_started"
  | .runAttemptStarted .. => "run_attempt_started"
  | .runAttemptFailed .. => "run_attempt_failed"
  | .runCompleted .. => "run_completed"
  | .runFailed .. => "run_failed"
  | .runCancelled .. => "run_cancelled"
  | .runInterrupted .. => "run_interrupted"
  | .runRequiresAction .. => "run_requires_action"
  | .queuePaused => "queue_paused"
  | .queueResumed => "queue_resumed"
  | .toolCallEmitted .. => "tool_call_emitted"
  | .toolExecutionStarted .. => "tool_execution_started"
  | .toolResult .. => "tool_result"
  | .agentPhaseChanged .. => "agent_phase_changed"
  | .permissionRequested .. => "permission_requested"
  | .permissionResolved .. => "permission_resolved"
  | .agentSpawned .. => "agent_spawned"
  | .agentFinished .. => "agent_finished"
  | .agentContextCaptured .. => "agent_context_captured"
  | .agentResultDelivered .. => "agent_result_delivered"
  | .contextFactRecorded .. => "context_fact_recorded"
  | .contextCompactionStarted .. => "context_compaction_started"
  | .contextCompacted .. => "context_compacted"
  | .contextCompactionFailed .. => "context_compaction_failed"
  | .contextCompactionBypassed .. => "context_compaction_bypassed"

/-- The fields of a variant that has fields. -/
def data? : SemanticEvent → Option Json
  | .sessionCreated title => some (.object [("title", .ofOptional .str title)])
  | .sessionPhaseChanged from_ to_ reason => some (.object
      [("from", .str from_.name), ("to", .str to_.name), ("reason", .ofOptional .str reason)])
  | .sessionInterrupted reason => some (.object [("reason", .str reason)])
  | .sessionForked parentSessionId atEventId => some (.object
      [("parent_session_id", .str parentSessionId), ("at_event_id", .ofNat atEventId)])
  | .messageStarted messageId agentId role author => some (.object
      [("message_id", .str messageId), ("agent_id", .str agentId), ("role", .str role.name),
        ("author", author.toJson)])
  | .messageContentAppended messageId block => some (.object
      [("message_id", .str messageId), ("block", block.toJson)])
  | .messageCompleted messageId => some (.object [("message_id", .str messageId)])
  | .messageInterrupted messageId => some (.object [("message_id", .str messageId)])
  | .runQueued runId retryOf provider model request => some (.object
      [("run_id", .str runId), ("retry_of", .ofOptional .str retryOf),
        ("provider", .str provider), ("model", .str model), ("request", request)])
  | .runStarted runId attemptId attempt => some (.object
      [("run_id", .str runId), ("attempt_id", .str attemptId), ("attempt", .ofNat attempt)])
  | .runAttemptStarted runId attemptId attempt => some (.object
      [("run_id", .str runId), ("attempt_id", .str attemptId), ("attempt", .ofNat attempt)])
  | .runAttemptFailed runId attemptId error retryable => some (.object
      [("run_id", .str runId), ("attempt_id", .str attemptId), ("error", .str error),
        ("retryable", .bool retryable)])
  | .runCompleted runId usage => some (.object
      [("run_id", .str runId), ("usage", .ofOption usage)])
  | .runFailed runId error => some (.object [("run_id", .str runId), ("error", .str error)])
  | .runCancelled runId reason => some (.object
      [("run_id", .str runId), ("reason", .ofOptional .str reason)])
  | .runInterrupted runId reason => some (.object
      [("run_id", .str runId), ("reason", .str reason)])
  | .runRequiresAction runId callIds => some (.object
      [("run_id", .str runId), ("call_ids", .ofList .str callIds)])
  | .queuePaused | .queueResumed => none
  | .toolCallEmitted runId assistantMessageId callId agentId toolName arguments rawArguments
      native => some (.object
      [("run_id", .str runId), ("assistant_message_id", .str assistantMessageId),
        ("call_id", .str callId), ("agent_id", .str agentId), ("tool_name", .str toolName),
        ("arguments", arguments), ("raw_arguments", .str rawArguments),
        ("native", .bool native)])
  | .toolExecutionStarted runId callId executionId => some (.object
      [("run_id", .str runId), ("call_id", .str callId), ("execution_id", .str executionId)])
  | .toolResult runId callId agentId toolName result => some (.object
      [("run_id", .str runId), ("call_id", .str callId), ("agent_id", .str agentId),
        ("tool_name", .str toolName), ("result", result)])
  | .agentPhaseChanged agentId phase => some (.object
      [("agent_id", .str agentId), ("phase", .str phase.name)])
  | .permissionRequested requestId runId callId agentId toolName arguments => some (.object
      [("request_id", .str requestId), ("run_id", .str runId),
        ("call_id", .ofOptional .str callId), ("agent_id", .str agentId),
        ("tool_name", .str toolName), ("arguments", arguments)])
  | .permissionResolved requestId decision source scope ruleId reason => some (.object
      [("request_id", .str requestId), ("decision", .str decision.name),
        ("source", .ofOptional (.str ·.name) source),
        ("scope", .ofOptional (.str ·.name) scope),
        ("rule_id", .ofOptional .str ruleId), ("reason", .ofOptional .str reason)])
  | .agentSpawned agentId parentId link configRevision => some (.object
      [("agent_id", .str agentId), ("parent_id", .ofOptional .str parentId),
        ("link", .ofOptional AgentLink.toJson link),
        ("config_revision", .ofOptional .ofNat configRevision)])
  | .agentFinished agentId result => some (.object
      [("agent_id", .str agentId), ("result", .ofOptional AgentResult.toJson result)])
  | .agentContextCaptured agentId references => some (.object
      [("agent_id", .str agentId),
        ("references", .ofList DelegatedContextRef.toJson references)])
  | .agentResultDelivered agentId parentRunId parentCallId result => some (.object
      [("agent_id", .str agentId), ("parent_run_id", .str parentRunId),
        ("parent_call_id", .str parentCallId), ("result", result.toJson)])
  | .contextFactRecorded fact => some (.object [("fact", fact.toJson)])
  | .contextCompactionStarted runId artifactId strategy sourceStartEventId sourceEndEventId =>
    some (.object
      [("run_id", .str runId), ("artifact_id", .str artifactId),
        ("strategy", .str strategy.name),
        ("source_start_event_id", .ofNat sourceStartEventId),
        ("source_end_event_id", .ofNat sourceEndEventId)])
  | .contextCompacted runId artifact => some (.object
      [("run_id", .str runId), ("artifact", artifact.toJson)])
  | .contextCompactionFailed runId artifactId code => some (.object
      [("run_id", .str runId), ("artifact_id", .str artifactId), ("code", .str code)])
  | .contextCompactionBypassed runId reason => some (.object
      [("run_id", .str runId), ("reason", .str reason)])

/-- `serde_json::to_value`. -/
def toJson (e : SemanticEvent) : Json := .tagged "type" "data" e.typeName e.data?

/-- The fields of a variant, by its name. -/
def readFields (type : String) (v : Json) : Option SemanticEvent :=
  match type with
  | "session_created" => do
    return .sessionCreated (← v.optional "title" Json.asStr?)
  | "session_phase_changed" => do
    return .sessionPhaseChanged (← v.required "from" SessionPhase.read)
      (← v.required "to" SessionPhase.read) (← v.optional "reason" Json.asStr?)
  | "session_interrupted" => do
    return .sessionInterrupted (← v.required "reason" Json.asStr?)
  | "session_forked" => do
    return .sessionForked (← v.required "parent_session_id" Json.asStr?)
      (← v.required "at_event_id" (Json.readUInt 64))
  | "message_started" => do
    return .messageStarted (← v.required "message_id" Json.asStr?)
      (← v.required "agent_id" Json.asStr?) (← v.required "role" MessageRole.read)
      (← v.defaulted "author" .system MessageAuthor.read)
  | "message_content_appended" => do
    return .messageContentAppended (← v.required "message_id" Json.asStr?)
      (← v.required "block" ContentBlock.read)
  | "message_completed" => do
    return .messageCompleted (← v.required "message_id" Json.asStr?)
  | "message_interrupted" => do
    return .messageInterrupted (← v.required "message_id" Json.asStr?)
  | "run_queued" => do
    return .runQueued (← v.required "run_id" Json.asStr?) (← v.optional "retry_of" Json.asStr?)
      (← v.required "provider" Json.asStr?) (← v.required "model" Json.asStr?)
      (← v.required "request" Json.readValue)
  | "run_started" => do
    return .runStarted (← v.required "run_id" Json.asStr?)
      (← v.required "attempt_id" Json.asStr?) (← v.required "attempt" (Json.readUInt 32))
  | "run_attempt_started" => do
    return .runAttemptStarted (← v.required "run_id" Json.asStr?)
      (← v.required "attempt_id" Json.asStr?) (← v.required "attempt" (Json.readUInt 32))
  | "run_attempt_failed" => do
    return .runAttemptFailed (← v.required "run_id" Json.asStr?)
      (← v.required "attempt_id" Json.asStr?) (← v.required "error" Json.asStr?)
      (← v.required "retryable" Json.asBool?)
  | "run_completed" => do
    return .runCompleted (← v.required "run_id" Json.asStr?)
      (← v.optional "usage" Json.readValue)
  | "run_failed" => do
    return .runFailed (← v.required "run_id" Json.asStr?) (← v.required "error" Json.asStr?)
  | "run_cancelled" => do
    return .runCancelled (← v.required "run_id" Json.asStr?)
      (← v.optional "reason" Json.asStr?)
  | "run_interrupted" => do
    return .runInterrupted (← v.required "run_id" Json.asStr?)
      (← v.required "reason" Json.asStr?)
  | "run_requires_action" => do
    return .runRequiresAction (← v.required "run_id" Json.asStr?)
      (← v.required "call_ids" (Json.readList Json.asStr?))
  | "tool_call_emitted" => do
    return .toolCallEmitted (← v.defaulted "run_id" "" Json.asStr?)
      (← v.defaulted "assistant_message_id" "" Json.asStr?)
      (← v.required "call_id" Json.asStr?) (← v.required "agent_id" Json.asStr?)
      (← v.required "tool_name" Json.asStr?) (← v.required "arguments" Json.readValue)
      (← v.defaulted "raw_arguments" "" Json.asStr?) (← v.defaulted "native" false Json.asBool?)
  | "tool_execution_started" => do
    return .toolExecutionStarted (← v.required "run_id" Json.asStr?)
      (← v.required "call_id" Json.asStr?) (← v.required "execution_id" Json.asStr?)
  | "tool_result" => do
    return .toolResult (← v.defaulted "run_id" "" Json.asStr?)
      (← v.required "call_id" Json.asStr?) (← v.required "agent_id" Json.asStr?)
      (← v.required "tool_name" Json.asStr?) (← v.required "result" Json.readValue)
  | "agent_phase_changed" => do
    return .agentPhaseChanged (← v.required "agent_id" Json.asStr?)
      (← v.required "phase" AgentPhase.read)
  | "permission_requested" => do
    return .permissionRequested (← v.required "request_id" Json.asStr?)
      (← v.defaulted "run_id" "" Json.asStr?) (← v.optional "call_id" Json.asStr?)
      (← v.required "agent_id" Json.asStr?) (← v.required "tool_name" Json.asStr?)
      (← v.required "arguments" Json.readValue)
  | "permission_resolved" => do
    return .permissionResolved (← v.required "request_id" Json.asStr?)
      (← v.required "decision" PermissionDecision.read)
      (← v.optional "source" PermissionDecisionSource.read)
      (← v.optional "scope" PermissionScope.read) (← v.optional "rule_id" Json.asStr?)
      (← v.optional "reason" Json.asStr?)
  | "agent_spawned" => do
    return .agentSpawned (← v.required "agent_id" Json.asStr?)
      (← v.optional "parent_id" Json.asStr?) (← v.optional "link" AgentLink.read)
      (← v.optional "config_revision" (Json.readUInt 64))
  | "agent_finished" => do
    return .agentFinished (← v.required "agent_id" Json.asStr?)
      (← v.optional "result" AgentResult.read)
  | "agent_context_captured" => do
    return .agentContextCaptured (← v.required "agent_id" Json.asStr?)
      (← v.required "references" (Json.readList DelegatedContextRef.read))
  | "agent_result_delivered" => do
    return .agentResultDelivered (← v.required "agent_id" Json.asStr?)
      (← v.required "parent_run_id" Json.asStr?) (← v.required "parent_call_id" Json.asStr?)
      (← v.required "result" AgentResult.read)
  | "context_fact_recorded" => do
    return .contextFactRecorded (← v.required "fact" ContextFact.read)
  | "context_compaction_started" => do
    return .contextCompactionStarted (← v.required "run_id" Json.asStr?)
      (← v.required "artifact_id" Json.asStr?) (← v.required "strategy" CompactionStrategy.read)
      (← v.required "source_start_event_id" (Json.readUInt 64))
      (← v.required "source_end_event_id" (Json.readUInt 64))
  | "context_compacted" => do
    return .contextCompacted (← v.required "run_id" Json.asStr?)
      (← v.required "artifact" ContextArtifact.read)
  | "context_compaction_failed" => do
    return .contextCompactionFailed (← v.required "run_id" Json.asStr?)
      (← v.required "artifact_id" Json.asStr?) (← v.required "code" Json.asStr?)
  | "context_compaction_bypassed" => do
    return .contextCompactionBypassed (← v.required "run_id" Json.asStr?)
      (← v.required "reason" Json.asStr?)
  | _ => none

/-- `serde_json::from_value`. -/
def read (v : Json) : Option SemanticEvent :=
  (v.required "type" Json.asStr?).bind fun type => match type with
    | "queue_paused" => if Json.noContent (v.get "data") then some .queuePaused else none
    | "queue_resumed" => if Json.noContent (v.get "data") then some .queueResumed else none
    | type => v.required "data" (Json.readRecord (readFields type))

end SemanticEvent

/-! ## Sizes

The integers of the records have fixed widths in the source. -/

structure AgentBudget.Sized (b : AgentBudget) : Prop where
  maxModelTurns : Json.FitsUInt 32 b.maxModelTurns
  maxDurationSeconds : Json.FitsUInt 64 b.maxDurationSeconds
  maxTreeDurationSeconds : Json.FitsUInt 64 b.maxTreeDurationSeconds
  maxTreeTokens : Json.FitsUInt 64 b.maxTreeTokens
  maxContextBytes : Json.FitsUInt 64 b.maxContextBytes
  maxResultBytes : Json.FitsUInt 64 b.maxResultBytes

structure AgentLink.Sized (l : AgentLink) : Prop where
  depth : Json.FitsUInt 8 l.depth
  budget : l.budget.Sized

structure ContextArtifact.Sized (a : ContextArtifact) : Prop where
  strategyVersion : Json.FitsUInt 16 a.strategyVersion
  sourceStartEventId : Json.FitsUInt 64 a.sourceStartEventId
  sourceEndEventId : Json.FitsUInt 64 a.sourceEndEventId
  contextWindowTokens : Json.FitsUInt 64 a.contextWindowTokens
  outputReserveTokens : Json.FitsUInt 64 a.outputReserveTokens
  estimatedInputTokens : Json.FitsUInt 64 a.estimatedInputTokens
  targetInputTokens : Json.FitsUInt 64 a.targetInputTokens

/-- The integers of an event fit their fields. -/
def SemanticEvent.Sized : SemanticEvent → Prop
  | .sessionForked _ atEventId => Json.FitsUInt 64 atEventId
  | .runStarted _ _ attempt | .runAttemptStarted _ _ attempt => Json.FitsUInt 32 attempt
  | .agentSpawned _ _ link configRevision =>
    (∀ l ∈ link, l.Sized) ∧ ∀ revision ∈ configRevision, Json.FitsUInt 64 revision
  | .agentContextCaptured _ references => ∀ r ∈ references, Json.FitsUInt 64 r.lastEventId
  | .contextCompactionStarted _ _ _ sourceStartEventId sourceEndEventId =>
    Json.FitsUInt 64 sourceStartEventId ∧ Json.FitsUInt 64 sourceEndEventId
  | .contextCompacted _ artifact => artifact.Sized
  | _ => True

/-! ## Reading back what was written -/

namespace Json

variable {α : Type}

@[simp] theorem asObject?_object_isSome (fields : List (String × Json)) :
    (object fields).asObject?.isSome = true := rfl

@[simp] theorem required_object (fields : List (String × Json)) (key : String)
    (read : Json → Option α) :
    (object fields).required key read = (SortedMap.lookup key fields.reverse).bind read := by
  rw [required, get_object]

@[simp] theorem readUInt_ofNat {bits n : Nat} (h : FitsUInt bits n) :
    readUInt bits (ofNat n) = some n := by
  have hlt : n < 2 ^ bits := h
  simp [readUInt, ofNat, hlt]

@[simp] theorem optional_object (fields : List (String × Json)) (key : String)
    (read : Json → Option α) :
    (object fields).optional key read =
      readOptional read (SortedMap.lookup key fields.reverse) := by
  rw [optional, get_object]

@[simp] theorem defaulted_object (fields : List (String × Json)) (key : String) (default : α)
    (read : Json → Option α) :
    (object fields).defaulted key default read =
      match SortedMap.lookup key fields.reverse with
      | none => some default
      | some field => read field := by
  rw [defaulted, get_object]

/-- An optional value of a kind that is never written as `null`. -/
theorem readOptional_ofOptional {read : Json → Option α} {write : α → Json} {a : Option α}
    (hread : ∀ x ∈ a, read (write x) = some x) (hnull : ∀ x, write x ≠ null) :
    readOptional read (some (ofOptional write a)) = some a := by
  cases a with
  | none => rfl
  | some x =>
    have hwritten := hread x rfl
    have hne := hnull x
    simp only [ofOptional, readOptional, hwritten, Option.map_some]

@[simp] theorem readOptional_str (a : Option String) :
    readOptional asStr? (some (ofOptional str a)) = some a :=
  readOptional_ofOptional (by simp [asStr?]) (by simp)

/-- An optional `Value` is lost when it is `null`. -/
@[simp] theorem readOptional_value (a : Option Json) :
    readOptional readValue (some (ofOption a)) = some (reloadValue a) := by
  rcases a with _ | ⟨_ | _ | _ | _ | _ | _ | _⟩ <;> rfl

theorem readList_ofList {read : Json → Option α} {write : α → Json} {items : List α}
    (h : ∀ x ∈ items, read (write x) = some x) : readList read (ofList write items) = some items := by
  simp only [readList, ofList]
  induction items with
  | nil => rfl
  | cons x xs ih =>
    obtain ⟨hx, hxs⟩ := List.forall_mem_cons.mp h
    simp [hx, ih hxs]

end Json

@[simp] theorem AgentPhase.read_name (p : AgentPhase) : AgentPhase.read (.str p.name) = some p := by
  cases p <;> rfl

@[simp] theorem SessionPhase.read_name (p : SessionPhase) :
    SessionPhase.read (.str p.name) = some p := by
  cases p <;> rfl

@[simp] theorem MessageRole.read_name (r : MessageRole) :
    MessageRole.read (.str r.name) = some r := by
  cases r <;> rfl

@[simp] theorem PermissionDecision.read_name (d : PermissionDecision) :
    PermissionDecision.read (.str d.name) = some d := by
  cases d <;> rfl

@[simp] theorem PermissionScope.read_name (s : PermissionScope) :
    PermissionScope.read (.str s.name) = some s := by
  cases s <;> rfl

@[simp] theorem PermissionDecisionSource.read_name (s : PermissionDecisionSource) :
    PermissionDecisionSource.read (.str s.name) = some s := by
  cases s <;> rfl

@[simp] theorem AgentTerminalStatus.read_name (s : AgentTerminalStatus) :
    AgentTerminalStatus.read (.str s.name) = some s := by
  cases s <;> rfl

@[simp] theorem CompactionStrategy.read_name (s : CompactionStrategy) :
    CompactionStrategy.read (.str s.name) = some s := by
  cases s <;> rfl

@[simp] theorem MessageAuthor.read_toJson (a : MessageAuthor) :
    MessageAuthor.read a.toJson = some a := by
  cases a <;> simp [MessageAuthor.read, MessageAuthor.toJson, Json.tagged, SortedMap.lookup,
    Json.asStr?, Json.get_object, Json.noContent]

@[simp] theorem ContentBlock.read_toJson (b : ContentBlock) :
    ContentBlock.read b.toJson = some b := by
  cases b <;> simp [ContentBlock.read, ContentBlock.toJson, SortedMap.lookup,
    Json.asStr?, Json.readValue]

theorem AgentBudget.read_toJson {b : AgentBudget} (h : b.Sized) :
    AgentBudget.read b.toJson = some b := by
  simp [AgentBudget.read, AgentBudget.toJson, Json.readRecord, SortedMap.lookup, h.maxModelTurns,
    h.maxDurationSeconds, h.maxTreeDurationSeconds, h.maxTreeTokens, h.maxContextBytes,
    h.maxResultBytes]

theorem AgentLink.read_toJson {l : AgentLink} (h : l.Sized) :
    AgentLink.read l.toJson = some l := by
  simp [AgentLink.read, AgentLink.toJson, Json.readRecord, SortedMap.lookup, Json.asStr?, h.depth,
    AgentBudget.read_toJson h.budget, Json.readValue]

theorem AgentResult.read_toJson (r : AgentResult) :
    AgentResult.read r.toJson = some r.reload := by
  simp [AgentResult.read, AgentResult.toJson, AgentResult.reload, Json.readRecord,
    SortedMap.lookup, Json.asStr?, Json.asBool?]

theorem DelegatedContextRef.read_toJson {r : DelegatedContextRef}
    (h : Json.FitsUInt 64 r.lastEventId) : DelegatedContextRef.read r.toJson = some r := by
  simp [DelegatedContextRef.read, DelegatedContextRef.toJson, Json.readRecord, SortedMap.lookup,
    Json.asStr?, h]

@[simp] theorem ContextFact.read_toJson (f : ContextFact) : ContextFact.read f.toJson = some f := by
  simp [ContextFact.read, ContextFact.toJson, Json.readRecord, SortedMap.lookup, Json.asStr?]

theorem ToolCorrelation.read_toJson (c : ToolCorrelation) :
    ToolCorrelation.read c.toJson = some c := by
  simp [ToolCorrelation.read, ToolCorrelation.toJson, Json.readRecord, SortedMap.lookup,
    Json.asStr?]

theorem ContextArtifact.read_toJson {a : ContextArtifact} (h : a.Sized) :
    ContextArtifact.read a.toJson = some a := by
  have hcorrelations : Json.readList ToolCorrelation.read
      (.ofList ToolCorrelation.toJson a.toolCorrelations) = some a.toolCorrelations :=
    Json.readList_ofList fun c _ => ToolCorrelation.read_toJson c
  simp [ContextArtifact.read, ContextArtifact.toJson, Json.readRecord, SortedMap.lookup,
    Json.asStr?, h.strategyVersion, h.sourceStartEventId, h.sourceEndEventId,
    h.contextWindowTokens, h.outputReserveTokens, h.estimatedInputTokens, h.targetInputTokens,
    hcorrelations]

theorem AgentLink.readOptional {l : Option AgentLink} (h : ∀ x ∈ l, x.Sized) :
    Json.readOptional AgentLink.read (some (.ofOptional AgentLink.toJson l)) = some l :=
  Json.readOptional_ofOptional (fun x hx => AgentLink.read_toJson (h x hx))
    (by simp [AgentLink.toJson, Json.object])

theorem AgentResult.readOptional (r : Option AgentResult) :
    Json.readOptional AgentResult.read (some (.ofOptional AgentResult.toJson r)) =
      some (r.map AgentResult.reload) := by
  cases r with
  | none => rfl
  | some r =>
    change (AgentResult.read r.toJson).map some = _
    rw [AgentResult.read_toJson]
    rfl

theorem PermissionDecisionSource.readOptional (s : Option PermissionDecisionSource) :
    Json.readOptional PermissionDecisionSource.read (some (.ofOptional (.str ·.name) s)) =
      some s :=
  Json.readOptional_ofOptional (by simp) (by simp)

theorem PermissionScope.readOptional (s : Option PermissionScope) :
    Json.readOptional PermissionScope.read (some (.ofOptional (.str ·.name) s)) = some s :=
  Json.readOptional_ofOptional (by simp) (by simp)

namespace SemanticEvent

/-- The fields of an event come back, up to `reload`. -/
theorem readFields_data {e : SemanticEvent} (h : e.Sized) {data : Json}
    (hdata : e.data? = some data) : readFields e.typeName data = some e.reload := by
  cases e <;> simp only [data?, Option.some.injEq, reduceCtorEq] at hdata <;> subst hdata <;>
    simp [typeName, readFields, SortedMap.lookup, Json.asStr?, Json.asBool?, reload, Json.readValue]
  -- what is left are the fields whose reading needs a width, a list or an optional record
  case sessionForked => simp [Json.readUInt_ofNat h]
  case runStarted => simp [Json.readUInt_ofNat h]
  case runAttemptStarted => simp [Json.readUInt_ofNat h]
  case runRequiresAction runId callIds =>
    have hlist : Json.readList Json.asStr? (.ofList .str callIds) = some callIds :=
      Json.readList_ofList fun _ _ => rfl
    rw [hlist]
    rfl
  case permissionResolved =>
    simp [PermissionDecisionSource.readOptional, PermissionScope.readOptional]
  case agentSpawned =>
    simp [AgentLink.readOptional h.1,
      Json.readOptional_ofOptional (fun x hx => Json.readUInt_ofNat (h.2 x hx)) (by simp [Json.ofNat])]
  case agentFinished => simp [AgentResult.readOptional]
  case agentContextCaptured =>
    simp [Json.readList_ofList fun r hr => DelegatedContextRef.read_toJson (h r hr)]
  case agentResultDelivered => simp [AgentResult.read_toJson]
  case contextCompactionStarted => simp [Json.readUInt_ofNat h.1, Json.readUInt_ofNat h.2]
  case contextCompacted => simp [ContextArtifact.read_toJson h]

theorem data?_object {e : SemanticEvent} {data : Json} (hdata : e.data? = some data) :
    data.asObject?.isSome = true := by
  cases e <;> simp only [data?, Option.some.injEq, reduceCtorEq] at hdata <;> subst hdata <;> rfl

theorem data?_eq_none {e : SemanticEvent} (hdata : e.data? = none) :
    e = .queuePaused ∨ e = .queueResumed := by
  cases e <;> simp [data?] at hdata ⊢

/-- The variants with fields have names of their own. -/
theorem typeName_ne_queue {e : SemanticEvent} {data : Json} (hdata : e.data? = some data) :
    e.typeName ≠ "queue_paused" ∧ e.typeName ≠ "queue_resumed" := by
  cases e <;> simp [data?, typeName] at hdata ⊢

/-- **An event that is stored in two columns and read back** is its `reload`. -/
theorem read_columns {e : SemanticEvent} (h : e.Sized) :
    read (.object [("type", .str e.typeName), ("data", e.data?.getD .null)]) = some e.reload := by
  cases hdata : e.data? with
  | none =>
    rcases data?_eq_none hdata with rfl | rfl <;>
      simp [read, typeName, SortedMap.lookup, Json.asStr?, Json.noContent, Json.get_object,
        Json.isNull, reload]
  | some data =>
    obtain ⟨hpaused, hresumed⟩ := typeName_ne_queue hdata
    have hfields := readFields_data h hdata
    simp [read, SortedMap.lookup, Json.asStr?, Json.readRecord, data?_object hdata, hfields]

end SemanticEvent

/-! ## What was read -/

theorem Json.reloadValue_of_readOptional {v : Option Json} {a : Option Json}
    (h : Json.readOptional Json.readValue v = some a) : reloadValue a = a := by
  rcases v with _ | ⟨_ | _ | _ | _ | _ | _ | _⟩ <;> cases h <;> rfl

theorem AgentResult.reload_of_read {v : Json} {r : AgentResult}
    (h : AgentResult.read v = some r) : r.reload = r := by
  simp only [AgentResult.read, Json.readRecord, Option.bind_eq_bind, Option.pure_def,
    Option.ite_none_right_eq_some, Option.bind_eq_some_iff, Option.some.injEq] at h
  obtain ⟨-, -, -, -, -, -, -, -, -, -, -, output, houtput, -, -, usage, husage, -, -, rfl⟩ := h
  simp [AgentResult.reload, Json.reloadValue_of_readOptional houtput,
    Json.reloadValue_of_readOptional husage]

theorem AgentResult.reload_of_readOptional {v : Option Json} {r : Option AgentResult}
    (h : Json.readOptional AgentResult.read v = some r) : r.map AgentResult.reload = r := by
  unfold Json.readOptional at h
  split at h
  · cases h
    rfl
  · cases h
    rfl
  · obtain ⟨result, hresult, rfl⟩ := Option.map_eq_some_iff.mp h
    rw [Option.map_some, AgentResult.reload_of_read hresult]

namespace SemanticEvent

/-- An event that was read has lost what it could lose. -/
theorem reload_of_readFields {type : String} {v : Json} {e : SemanticEvent}
    (h : readFields type v = some e) : e.reload = e := by
  cases e
  case runCompleted runId usage =>
    unfold readFields at h
    split at h <;>
      simp only [Option.bind_eq_bind, Option.pure_def, Option.bind_eq_some_iff, Option.some.injEq,
        reduceCtorEq, and_false, exists_false, runCompleted.injEq] at h
    obtain ⟨-, -, usage, husage, -, rfl⟩ := h
    rw [reload, Json.reloadValue_of_readOptional husage]
  case agentFinished agentId result =>
    unfold readFields at h
    split at h <;>
      simp only [Option.bind_eq_bind, Option.pure_def, Option.bind_eq_some_iff, Option.some.injEq,
        reduceCtorEq, and_false, exists_false, agentFinished.injEq] at h
    obtain ⟨-, -, result, hresult, -, rfl⟩ := h
    rw [reload, AgentResult.reload_of_readOptional hresult]
  case agentResultDelivered agentId parentRunId parentCallId result =>
    unfold readFields at h
    split at h <;>
      simp only [Option.bind_eq_bind, Option.pure_def, Option.bind_eq_some_iff, Option.some.injEq,
        reduceCtorEq, and_false, exists_false, agentResultDelivered.injEq] at h
    obtain ⟨-, -, -, -, -, -, result, hresult, -, -, -, rfl⟩ := h
    obtain ⟨_, -, hread⟩ := Option.bind_eq_some_iff.mp hresult
    rw [reload, AgentResult.reload_of_read hread]
  all_goals rfl

theorem reload_of_read {v : Json} {e : SemanticEvent} (h : read v = some e) : e.reload = e := by
  obtain ⟨type, -, h⟩ := Option.bind_eq_some_iff.mp h
  split at h
  · obtain ⟨-, h⟩ := Option.ite_none_right_eq_some.mp h
    cases h
    rfl
  · obtain ⟨-, h⟩ := Option.ite_none_right_eq_some.mp h
    cases h
    rfl
  · obtain ⟨data, -, h⟩ := Option.bind_eq_some_iff.mp h
    exact reload_of_readFields (Option.ite_none_right_eq_some.mp h).2

end SemanticEvent

end Piqo
