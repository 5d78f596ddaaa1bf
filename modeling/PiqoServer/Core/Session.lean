import PiqoServer.Core.Event

/-!
# The session projection

A session's state is the fold of its events (`piqo-core/src/session.rs`). `SessionProjection.apply`
either accepts an event and returns the next projection, or names what is wrong with it. The
source mutates the projection in place and may leave it half changed when it fails; every caller
drops it then, so failure carries no projection here.

## Main definitions

* `SessionState.apply`: the phase, revision and position of a session
* `SessionProjection.apply`: messages, agents, permissions, runs, tool calls and context
* `SessionProjection.activeRun`, `queuedRuns`, `readyActionRun`: what a worker looks for

## Main results

* `apply_state`: the state component evolves by `SessionState.apply`
* `SessionState.apply_lastEventId`: an accepted event is the last one
-/

namespace Piqo

/-! ## Projected data -/

inductive RunStatus where
  | queued | running | requiresAction | completed | failed | cancelled | interrupted
  deriving DecidableEq, Repr

/-- A run that has not ended. -/
def RunStatus.live : RunStatus → Bool
  | .queued | .running | .requiresAction => true
  | .completed | .failed | .cancelled | .interrupted => false

structure MessageProjection where
  messageId : String
  role : MessageRole
  agentId : Option String
  author : MessageAuthor
  blocks : List ContentBlock
  completed : Bool
  interrupted : Bool
  firstEventId : Nat
  lastEventId : Nat
  deriving DecidableEq

/-- A message that takes no more content. -/
def MessageProjection.closed (m : MessageProjection) : Bool := m.completed || m.interrupted

structure ToolCallProjection where
  callId : String
  assistantMessageId : String
  agentId : String
  toolName : String
  arguments : Json
  rawArguments : String
  native : Bool
  executionId : Option String
  result : Option Json
  deriving DecidableEq

structure RunProjection where
  runId : String
  retryOf : Option String
  provider : String
  model : String
  request : Json
  status : RunStatus
  attemptId : Option String
  attempts : Nat
  error : Option String
  usage : Option Json
  queuePriority : Int
  toolCalls : SortedMap String ToolCallProjection
  deriving DecidableEq

structure PermissionProjection where
  requestId : String
  runId : String
  callId : Option String
  agentId : String
  toolName : String
  arguments : Json
  decision : Option PermissionDecision
  deriving DecidableEq

structure AgentProjection where
  agentId : String
  parentId : Option String
  link : Option AgentLink
  configRevision : Option Nat
  context : List DelegatedContextRef
  result : Option AgentResult
  deriving DecidableEq

structure ContextProjection where
  durableFacts : List ContextFact
  activeArtifact : Option ContextArtifact
  lastFailure : Option String
  lastBypassReason : Option String
  deriving DecidableEq, Inhabited

structure SessionState where
  sessionId : String
  phase : SessionPhase
  revision : Nat
  lastEventId : Option Nat
  deriving DecidableEq, Repr

structure SessionProjection where
  state : SessionState
  messages : List MessageProjection
  agents : SortedMap String AgentPhase
  agentInstances : SortedMap String AgentProjection
  pendingPermissions : SortedMap String PermissionProjection
  runs : SortedMap String RunProjection
  queuePaused : Bool
  context : ContextProjection
  deriving DecidableEq

/-! ## Errors -/

structure SessionTransitionError where
  from_ : SessionPhase
  to_ : SessionPhase
  deriving DecidableEq, Repr

inductive ProjectionError where
  | duplicateCreation
  | invalidTransition (error : SessionTransitionError)
  | duplicateMessage (messageId : String)
  | unknownMessage (messageId : String)
  | duplicateToolCall (callId : String)
  | unknownToolCall (callId : String)
  | duplicatePermissionRequest (requestId : String)
  | unknownPermissionRequest (requestId : String)
  | conflictingPermissionResolution (requestId : String)
  | conflictingToolResult (callId : String)
  | externalToolExecution (callId : String)
  | conflictingToolExecution (callId : String)
  | messageAlreadyClosed (messageId : String)
  | duplicateAgent (agentId : String)
  | unknownAgent (agentId : String)
  | conflictingAgentResult (agentId : String)
  | conflictingAgentContext (agentId : String)
  | duplicateRun (runId : String)
  | unknownRun (runId : String)
  | invalidRunTransition (runId : String) (from_ to_ : RunStatus)
  deriving DecidableEq, Repr

/-! ## Session state -/

/-- The phases from which `next` may be entered. -/
def allowedSources : SessionPhase → List SessionPhase
  | .created => []
  | .running => [.created, .finished, .interrupted, .failed]
  | .interrupted => [.running]
  | .finished => [.running]
  | .failed => [.created, .running, .interrupted]

namespace SessionState

def new (sessionId : String) : SessionState :=
  { sessionId, phase := .created, revision := 0, lastEventId := none }

def transition (s : SessionState) (next : SessionPhase) (allowedFrom : List SessionPhase) :
    Except ProjectionError SessionState :=
  if s.phase ∈ allowedFrom then
    .ok { s with phase := next, revision := s.revision + 1 }
  else
    .error (.invalidTransition ⟨s.phase, next⟩)

def interrupt (s : SessionState) : Except ProjectionError SessionState :=
  s.transition .interrupted [.running]

/-- The effect of an event on phase and revision. -/
def applyPhase (s : SessionState) : SemanticEvent → Except ProjectionError SessionState
  | .sessionCreated _ =>
    if s.revision ≠ 0 ∨ s.lastEventId.isSome then .error .duplicateCreation else .ok s
  | .sessionPhaseChanged from_ to_ _ =>
    if s.phase ≠ from_ then .error (.invalidTransition ⟨s.phase, to_⟩)
    else s.transition to_ (allowedSources to_)
  | .sessionInterrupted _ => s.interrupt
  | .sessionForked _ _ => .ok { s with phase := .interrupted, revision := s.revision + 1 }
  | _ => .ok s

def apply (s : SessionState) (eventId : Nat) (event : SemanticEvent) :
    Except ProjectionError SessionState :=
  (s.applyPhase event).map fun s => { s with lastEventId := some eventId }

theorem apply_lastEventId {s t : SessionState} {eventId : Nat} {event : SemanticEvent}
    (h : s.apply eventId event = .ok t) : t.lastEventId = some eventId := by
  unfold apply at h
  cases hs : s.applyPhase event with
  | error err => rw [hs] at h; cases h
  | ok s' => rw [hs] at h; cases h; rfl

end SessionState

/-! ## Updates -/

/-- Update the first message with the given id. -/
def updateMessage (messageId : String)
    (f : MessageProjection → Except ProjectionError MessageProjection) :
    List MessageProjection → Except ProjectionError (List MessageProjection)
  | [] => .error (.unknownMessage messageId)
  | m :: ms =>
    if m.messageId = messageId then (f m).map (· :: ms)
    else (updateMessage messageId f ms).map (m :: ·)

/-- Update a message that is still open. -/
def updateOpenMessage (messageId : String) (f : MessageProjection → MessageProjection) :
    List MessageProjection → Except ProjectionError (List MessageProjection) :=
  updateMessage messageId fun m =>
    if m.closed then .error (.messageAlreadyClosed messageId) else .ok (f m)

/-- The author shown for a message; older events carry `system` for everyone. -/
def projectedAuthor (author : MessageAuthor) (role : MessageRole) (agentId : String) :
    MessageAuthor :=
  match author, role, agentId.isEmpty with
  | .system, .user, _ => .user
  | .system, .assistant, false => .agent agentId
  | .system, .tool, false => .tool agentId
  | _, _, _ => author

namespace RunProjection

/-- Update a tool call of the run. -/
def updateCall (run : RunProjection) (callId : String)
    (f : ToolCallProjection → Except ProjectionError ToolCallProjection) :
    Except ProjectionError RunProjection :=
  match run.toolCalls.get? callId with
  | none => .error (.unknownToolCall callId)
  | some call => (f call).map fun call => { run with toolCalls := run.toolCalls.insert callId call }

end RunProjection

namespace SessionProjection

def new (sessionId : String) : SessionProjection where
  state := .new sessionId
  messages := []
  agents := ∅
  agentInstances := ∅
  pendingPermissions := ∅
  runs := ∅
  queuePaused := false
  context := default

/-- Update a run of the session. -/
def updateRun (p : SessionProjection) (runId : String)
    (f : RunProjection → Except ProjectionError RunProjection) :
    Except ProjectionError SessionProjection :=
  match p.runs.get? runId with
  | none => .error (.unknownRun runId)
  | some run => (f run).map fun run => { p with runs := p.runs.insert runId run }

/-- Update an agent instance of the session. -/
def updateInstance (p : SessionProjection) (agentId : String)
    (f : AgentProjection → Except ProjectionError AgentProjection) :
    Except ProjectionError SessionProjection :=
  match p.agentInstances.get? agentId with
  | none => .error (.unknownAgent agentId)
  | some inst =>
    (f inst).map fun inst => { p with agentInstances := p.agentInstances.insert agentId inst }

def setRunTerminal (p : SessionProjection) (runId : String) (status : RunStatus)
    (error : Option String) : Except ProjectionError SessionProjection :=
  p.updateRun runId fun run =>
    if run.status.live then .ok { run with status, error }
    else .error (.invalidRunTransition runId run.status status)

def setQueuePaused (paused : Bool) (p : SessionProjection) : SessionProjection :=
  { p with queuePaused := paused }

/-! ## Applying an event -/

/-- The effect of an event on everything but the session state. -/
def applyEvent (p : SessionProjection) (eventId : Nat) :
    SemanticEvent → Except ProjectionError SessionProjection
  | .messageStarted messageId agentId role author =>
    if p.messages.any (·.messageId == messageId) then .error (.duplicateMessage messageId)
    else .ok { p with
      messages := p.messages ++ [{
        messageId, role
        agentId := if agentId.isEmpty then none else some agentId
        author := projectedAuthor author role agentId
        blocks := [], completed := false, interrupted := false
        firstEventId := eventId, lastEventId := eventId }] }
  | .messageContentAppended messageId block =>
    (updateOpenMessage messageId
      (fun m => { m with blocks := m.blocks ++ [block], lastEventId := eventId })
      p.messages).map fun messages => { p with messages }
  | .messageCompleted messageId =>
    (updateOpenMessage messageId
      (fun m => { m with completed := true, lastEventId := eventId })
      p.messages).map fun messages => { p with messages }
  | .messageInterrupted messageId =>
    (updateOpenMessage messageId
      (fun m => { m with interrupted := true, lastEventId := eventId })
      p.messages).map fun messages => { p with messages }
  | .agentSpawned agentId parentId link configRevision =>
    if p.agents.contains agentId then .error (.duplicateAgent agentId)
    else .ok { p with
      agents := p.agents.insert agentId .created
      agentInstances := p.agentInstances.insert agentId
        { agentId, parentId, link, configRevision, context := [], result := none } }
  | .agentPhaseChanged agentId phase => .ok { p with agents := p.agents.insert agentId phase }
  | .agentFinished agentId result =>
    { p with agents := p.agents.insert agentId .finished }.updateInstance agentId fun inst =>
      match inst.result, result with
      | none, result => .ok { inst with result }
      | some existing, some result =>
        if existing = result then .ok inst else .error (.conflictingAgentResult agentId)
      | some _, none => .ok inst
  | .agentContextCaptured agentId references =>
    p.updateInstance agentId fun inst =>
      if inst.context ≠ [] ∧ inst.context ≠ references then
        .error (.conflictingAgentContext agentId)
      else .ok { inst with context := references }
  | .agentResultDelivered agentId _ _ result =>
    p.updateInstance agentId fun inst =>
      match inst.result with
      | none => .ok { inst with result := some result }
      | some existing =>
        if existing = result then .ok inst else .error (.conflictingAgentResult agentId)
  | .permissionRequested requestId runId callId agentId toolName arguments =>
    if p.pendingPermissions.contains requestId then
      .error (.duplicatePermissionRequest requestId)
    else .ok { p with
      pendingPermissions := p.pendingPermissions.insert requestId
        { requestId, runId, callId, agentId, toolName, arguments, decision := none } }
  | .permissionResolved requestId decision _ _ _ _ =>
    match p.pendingPermissions.get? requestId with
    | none => .error (.unknownPermissionRequest requestId)
    | some pending =>
      match pending.decision with
      | none => .ok { p with
          pendingPermissions := p.pendingPermissions.insert requestId
            { pending with decision := some decision } }
      | some existing =>
        if existing = decision then .ok p
        else .error (.conflictingPermissionResolution requestId)
  | .runQueued runId retryOf provider model request =>
    if p.runs.contains runId then .error (.duplicateRun runId)
    else .ok { p with
      runs := p.runs.insert runId
        { runId, retryOf, provider, model, request
          status := .queued, attemptId := none, attempts := 0, error := none, usage := none
          queuePriority := if retryOf.isSome then -1 else 0
          toolCalls := ∅ } }
  | .runStarted runId attemptId attempt =>
    (p.updateRun runId fun run =>
      if run.status = .queued ∨ run.status = .requiresAction then
        .ok { run with status := .running, attemptId := some attemptId, attempts := attempt }
      else .error (.invalidRunTransition runId run.status .running)).map (setQueuePaused false)
  | .runCompleted runId usage =>
    (p.setRunTerminal runId .completed none).bind fun p =>
      p.updateRun runId fun run => .ok { run with usage }
  | .runAttemptStarted runId attemptId attempt =>
    p.updateRun runId fun run =>
      if run.status = .running then
        .ok { run with attemptId := some attemptId, attempts := attempt }
      else .error (.invalidRunTransition runId run.status .running)
  | .runFailed runId error =>
    (p.setRunTerminal runId .failed (some error)).map (setQueuePaused true)
  | .runCancelled runId _ =>
    (p.setRunTerminal runId .cancelled none).map (setQueuePaused true)
  | .runInterrupted runId reason =>
    (p.setRunTerminal runId .interrupted (some reason)).map (setQueuePaused true)
  | .runRequiresAction runId _ =>
    (p.updateRun runId fun run =>
      if run.status = .running then .ok { run with status := .requiresAction }
      else .error (.invalidRunTransition runId run.status .requiresAction)).map
        (setQueuePaused true)
  | .toolCallEmitted runId assistantMessageId callId agentId toolName arguments rawArguments
      native =>
    p.updateRun runId fun run =>
      if run.toolCalls.contains callId then .error (.duplicateToolCall callId)
      else .ok { run with
        toolCalls := run.toolCalls.insert callId
          { callId, assistantMessageId, agentId, toolName, arguments, rawArguments, native
            executionId := none, result := none } }
  | .toolExecutionStarted runId callId executionId =>
    p.updateRun runId fun run => run.updateCall callId fun call =>
      if !call.native then .error (.externalToolExecution callId)
      else match call.executionId with
        | none => .ok { call with executionId := some executionId }
        | some existing =>
          if existing = executionId then .ok call
          else .error (.conflictingToolExecution callId)
  | .toolResult runId callId _ _ result =>
    p.updateRun runId fun run => run.updateCall callId fun call =>
      match call.result with
      | none => .ok { call with result := some result }
      | some existing =>
        if existing = result then .ok call else .error (.conflictingToolResult callId)
  | .runAttemptFailed runId _ error _ =>
    p.updateRun runId fun run => .ok { run with error := some error }
  | .queuePaused => .ok (p.setQueuePaused true)
  | .queueResumed => .ok (p.setQueuePaused false)
  | .sessionForked _ _ => .ok (p.setQueuePaused true)
  | .contextFactRecorded fact =>
    if p.context.durableFacts.any (·.factId == fact.factId) then .ok p
    else .ok { p with
      context := { p.context with durableFacts := p.context.durableFacts ++ [fact] } }
  | .contextCompacted _ artifact => .ok { p with
      context := { p.context with
        activeArtifact := some artifact, lastFailure := none, lastBypassReason := none } }
  | .contextCompactionFailed _ _ code => .ok { p with
      context := { p.context with lastFailure := some code } }
  | .contextCompactionBypassed _ reason => .ok { p with
      context := { p.context with lastBypassReason := some reason } }
  | .sessionCreated _ | .sessionPhaseChanged _ _ _ | .sessionInterrupted _
  | .contextCompactionStarted _ _ _ _ _ => .ok p

/-- Apply one event with its durable id. -/
def apply (p : SessionProjection) (eventId : Nat) (event : SemanticEvent) :
    Except ProjectionError SessionProjection :=
  (p.state.apply eventId event).bind fun state => { p with state }.applyEvent eventId event

/-! ## What a worker looks for -/

def activeRun (p : SessionProjection) : Option RunProjection :=
  p.runs.values.find? (·.status = .running)

/-- Retries come before other queued runs; within one priority the order is that of the ids. -/
def queuedRuns (p : SessionProjection) : List RunProjection :=
  (p.runs.values.filter (·.status = .queued)).mergeSort fun left right =>
    left.queuePriority < right.queuePriority ∨
      (left.queuePriority = right.queuePriority ∧ left.runId ≤ right.runId)

def readyActionRun (p : SessionProjection) : Option RunProjection :=
  p.runs.values.find? fun run =>
    run.status = .requiresAction && !run.toolCalls.values.isEmpty &&
      run.toolCalls.values.all (·.result.isSome)

end SessionProjection

end Piqo
