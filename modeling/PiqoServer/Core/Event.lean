import PiqoServer.Core.Json

/-!
# Semantic events

The durable history of a session is a list of semantic events (`piqo-core/src/event_log.rs`).
The events carry the identifiers, decisions and opaque JSON the projection reads. An event id is
a natural number, assigned in increasing order within a session.

Storing an event and reading it back goes through serde. The only values that do not survive
are those of an `Option<Value>` field: `Some(null)` and `None` both encode to `null`, and `null`
decodes to `None`. `SemanticEvent.reload` is that round trip.

## Main definitions

* `SemanticEvent`, `RecordedEvent`: the events, and an event with its durable position
* `AgentLink`, `AgentResult`, `ContextArtifact`, …: the records they carry
* `SemanticEvent.reload`: an event as it is read back from its row

## Main results

* `SemanticEvent.reload_reload`: reading back is idempotent
-/

namespace Piqo

inductive AgentPhase where
  | created | running | waitingForPermission | finished | failed
  deriving DecidableEq, Repr

inductive SessionPhase where
  | created | running | interrupted | finished | failed
  deriving DecidableEq, Repr

inductive MessageRole where
  | system | user | assistant | tool
  deriving DecidableEq, Repr

inductive MessageAuthor where
  | system
  | user
  | agent (id : String)
  | tool (id : String)
  deriving DecidableEq, Repr

inductive ContentBlock where
  | text (text : String)
  | json (value : Json)
  deriving DecidableEq

/-! ## Permissions -/

inductive PermissionDecision where
  | allow | ask | deny
  deriving DecidableEq, Repr

/-- The lifetime of an explicit client approval. -/
inductive PermissionScope where
  | once | session | project | configuration
  deriving DecidableEq, Repr

/-- Where the effective decision originated. -/
inductive PermissionDecisionSource where
  | default | configuration | interactiveConfiguration | projectRule | sessionRule
  | requestApproval
  deriving DecidableEq, Repr

/-! ## Delegation -/

/-- Limits captured when a child agent is admitted. -/
structure AgentBudget where
  maxModelTurns : Nat
  maxDurationSeconds : Nat
  maxTreeDurationSeconds : Nat
  maxTreeTokens : Nat
  maxContextBytes : Nat
  maxResultBytes : Nat
  deriving DecidableEq, Repr

/-- The durable relationship between a delegation and its child run. -/
structure AgentLink where
  instanceId : String
  profileId : String
  parentSessionId : String
  parentRunId : String
  parentCallId : String
  childSessionId : String
  childRunId : String
  depth : Nat
  budget : AgentBudget
  permissionCeiling : Json
  deriving DecidableEq

inductive AgentTerminalStatus where
  | completed | failed | cancelled | interrupted
  deriving DecidableEq, Repr

/-- The envelope delivered to the parent as the result of `delegate`. -/
structure AgentResult where
  instanceId : String
  profileId : String
  childSessionId : String
  childRunId : String
  status : AgentTerminalStatus
  output : Option Json
  outputTruncated : Bool
  usage : Option Json
  error : Option String
  deriving DecidableEq

/-- A source message copied into a child session. -/
structure DelegatedContextRef where
  sourceSessionId : String
  messageId : String
  lastEventId : Nat
  deriving DecidableEq, Repr

/-! ## Context management -/

inductive CompactionStrategy where
  | deterministic | llm
  deriving DecidableEq, Repr

structure ContextFact where
  factId : String
  value : String
  deriving DecidableEq, Repr

structure ToolCorrelation where
  callId : String
  toolName : String
  runId : String
  deriving DecidableEq, Repr

structure ContextArtifact where
  artifactId : String
  supersedesArtifactId : Option String
  strategy : CompactionStrategy
  strategyVersion : Nat
  sourceStartEventId : Nat
  sourceEndEventId : Nat
  contextWindowTokens : Nat
  outputReserveTokens : Nat
  estimatedInputTokens : Nat
  targetInputTokens : Nat
  estimatorVersion : String
  summary : String
  toolCorrelations : List ToolCorrelation
  deriving DecidableEq, Repr

/-! ## Events -/

/-- State changes that make up a session's durable history. -/
inductive SemanticEvent where
  | sessionCreated (title : Option String)
  | sessionPhaseChanged (from_ to_ : SessionPhase) (reason : Option String)
  | sessionInterrupted (reason : String)
  | sessionForked (parentSessionId : String) (atEventId : Nat)
  | messageStarted (messageId agentId : String) (role : MessageRole) (author : MessageAuthor)
  | messageContentAppended (messageId : String) (block : ContentBlock)
  | messageCompleted (messageId : String)
  | messageInterrupted (messageId : String)
  | runQueued (runId : String) (retryOf : Option String) (provider model : String)
      (request : Json)
  | runStarted (runId attemptId : String) (attempt : Nat)
  | runAttemptStarted (runId attemptId : String) (attempt : Nat)
  | runAttemptFailed (runId attemptId error : String) (retryable : Bool)
  | runCompleted (runId : String) (usage : Option Json)
  | runFailed (runId error : String)
  | runCancelled (runId : String) (reason : Option String)
  | runInterrupted (runId reason : String)
  | runRequiresAction (runId : String) (callIds : List String)
  | queuePaused
  | queueResumed
  | toolCallEmitted (runId assistantMessageId callId agentId toolName : String)
      (arguments : Json) (rawArguments : String) (native : Bool)
  | toolExecutionStarted (runId callId executionId : String)
  | toolResult (runId callId agentId toolName : String) (result : Json)
  | agentPhaseChanged (agentId : String) (phase : AgentPhase)
  | permissionRequested (requestId runId : String) (callId : Option String)
      (agentId toolName : String) (arguments : Json)
  | permissionResolved (requestId : String) (decision : PermissionDecision)
      (source : Option PermissionDecisionSource) (scope : Option PermissionScope)
      (ruleId reason : Option String)
  | agentSpawned (agentId : String) (parentId : Option String) (link : Option AgentLink)
      (configRevision : Option Nat)
  | agentFinished (agentId : String) (result : Option AgentResult)
  | agentContextCaptured (agentId : String) (references : List DelegatedContextRef)
  | agentResultDelivered (agentId parentRunId parentCallId : String) (result : AgentResult)
  | contextFactRecorded (fact : ContextFact)
  | contextCompactionStarted (runId artifactId : String) (strategy : CompactionStrategy)
      (sourceStartEventId sourceEndEventId : Nat)
  | contextCompacted (runId : String) (artifact : ContextArtifact)
  | contextCompactionFailed (runId artifactId code : String)
  | contextCompactionBypassed (runId reason : String)
  deriving DecidableEq

/-- An event with the durable sequence number assigned to it. -/
structure RecordedEvent where
  id : Nat
  sessionId : String
  schemaVersion : Nat
  occurredAt : String
  event : SemanticEvent
  deriving DecidableEq

/-! ## Reading back -/

/-- An `Option<Value>` field through serde: a present `null` comes back absent. -/
def reloadValue : Option Json → Option Json
  | some .null => none
  | v => v

@[simp] theorem reloadValue_reloadValue (v : Option Json) :
    reloadValue (reloadValue v) = reloadValue v := by
  rcases v with _ | ⟨_ | _ | _ | _ | _ | _ | _⟩ <;> rfl

/-- A result through serde. -/
def AgentResult.reload (r : AgentResult) : AgentResult :=
  { r with output := reloadValue r.output, usage := reloadValue r.usage }

@[simp] theorem AgentResult.reload_reload (r : AgentResult) : r.reload.reload = r.reload := by
  simp [AgentResult.reload]

/-- An event as it is read back from its row. -/
def SemanticEvent.reload : SemanticEvent → SemanticEvent
  | .runCompleted runId usage => .runCompleted runId (reloadValue usage)
  | .agentFinished agentId result => .agentFinished agentId (result.map AgentResult.reload)
  | .agentResultDelivered agentId parentRunId parentCallId result =>
    .agentResultDelivered agentId parentRunId parentCallId result.reload
  | e => e

/-- A record as it is read back from its row. -/
def RecordedEvent.reload (r : RecordedEvent) : RecordedEvent := { r with event := r.event.reload }

@[simp] theorem SemanticEvent.reload_reload (e : SemanticEvent) : e.reload.reload = e.reload := by
  cases e <;> simp [SemanticEvent.reload, Function.comp_def]

end Piqo
