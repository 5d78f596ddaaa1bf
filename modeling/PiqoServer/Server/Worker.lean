import PiqoServer.Server.Compaction

/-!
# The worker of a session

`process_session` (`piqo-server/src/supervisor.rs`) takes one run of a session after the other: a
run whose tool calls all have results first, then the queued ones. A run is started, executed
against its provider, and finished.

Executing a run writes the user's message, opens a message of the assistant, sends the request and
records what the provider sends. What comes of it is a value (`ExecutionResult`), also where the
store refuses an event. A connection that fails, or a stream that breaks before anything came, is
tried again, five times in all.

## Main definitions

* `persistDelta`, `readStream`, `readText`: recording what a provider sends
* `executeRun`, `executeRunWithChildTimeout`: executing a run
* `finishRun`, `deliverChildResult`: finishing it
* `iteration`, `processSession`: the loop of a worker
-/

namespace Piqo

/-! ## Outcomes -/

/-- What comes of executing a run; a failure may be worth another attempt. -/
inductive ExecutionResult where
  | completed
  | completedWithUsage (usage : Option Json)
  | failed (error : String) (retryable : Bool)
  | cancelled
  | interrupted
  | requiresAction
  deriving DecidableEq

/-- How the execution of a run ends early. -/
inductive TurnExit where
  | result (result : ExecutionResult)
  /-- The task panicked, and unwinds. -/
  | panicked

/-- A part of executing a run. -/
abbrev TurnProgram (α : Type) := Program serverSignature TurnExit α

/-- The run ends. -/
def exit {α : Type} (result : ExecutionResult) : TurnProgram α := .fail (.result result)

/-- An error of the store fails the run. -/
def StoreError.exit (retryable : Bool) : StoreError → TurnExit
  | .panicked => .panicked
  | e => .result (.failed e.message retryable)

/-- A part that fails the run where it fails. -/
def orFail {α : Type} (p : ServerProgram α) : TurnProgram α := p.recover fun e => .error (e.exit false)

/-- The end of a run as a value. -/
def TurnExit.settle : TurnExit → Except StoreError ExecutionResult
  | .result r => .ok r
  | .panicked => .error .panicked

/-- What comes from outside. -/
def query (op : ExternalOp) : TurnProgram op.Reply := .call (.external op) .ret

/-! ## Recording what a provider sends -/

inductive DeltaResult where
  | none
  | usage (value : Json)
  | requiresAction

/-- The arguments of a call; a text that is not JSON is kept as it is. -/
def parseArguments (text : String) : ServerProgram Json := do
  match ← ask (.parseJson text) with
  | some v => return v
  | none => return .object [("raw", .str text)]

/-- `is_native_call(..).unwrap_or(false)`. -/
def isNativeCallOrFalse (sessionId runId toolName : String) : ServerProgram Bool := do
  match ← (isNativeCall sessionId runId toolName).attempt with
  | .ok native => return native
  | .error _ => return false

def persistDelta (sessionId runId assistantMessageId : String) :
    ProviderDelta → ServerProgram DeltaResult
  | .text text => do
    let _ ← append sessionId (.messageContentAppended assistantMessageId (.text text))
    return .none
  | .toolCall callId name arguments => do
    let callId ← match callId with
      | some callId => pure callId
      | none => ask .newUuid
    let toolName := name.getD "function"
    let native ← isNativeCallOrFalse sessionId runId toolName
    let parsed ← parseArguments arguments
    let _ ← append sessionId (.toolCallEmitted runId assistantMessageId callId "assistant" toolName
      parsed arguments native)
    return .none
  | .toolCallDelta .. => .fail (.invalidRequest "incomplete tool call reached persistence")
  | .usage value => return .usage value
  | .completed => return .none
  | .requiresAction => do
    let _ ← append sessionId (.runRequiresAction runId [])
    return .requiresAction

/-- A tool call that comes in pieces. -/
structure ToolCallBuffer where
  callId : Option String
  name : Option String
  arguments : String

/-- What has been read of a stream. -/
structure StreamState where
  outcome : ExecutionResult := .completed
  sawDelta : Bool := false
  sawCompleted : Bool := false
  usage : Option Json := none
  textBuffer : String := ""
  /-- By key, in the order in which the calls came up; the code keeps them in a hash map. -/
  toolBuffers : List (String × ToolCallBuffer) := []

/-- Nothing more is read. -/
def StreamState.over (st : StreamState) : Bool :=
  match st.outcome with
  | .failed _ _ | .requiresAction => true
  | _ => false

/-- The key under which the pieces of a call are collected. -/
def toolBufferKey (buffers : List (String × ToolCallBuffer)) (index : Option Nat)
    (callId : Option String) : String :=
  ((index.map fun index => s!"stream-index-{index}").or callId).getD
    s!"anonymous-tool-{buffers.length}"

/-- Add a piece to a call. -/
def addPiece (key : String) (callId name : Option String) (arguments : String) :
    List (String × ToolCallBuffer) → List (String × ToolCallBuffer)
  | [] => [(key, ⟨callId, name, arguments⟩)]
  | (key', buffer) :: buffers =>
    if key' = key then
      (key', { callId := buffer.callId.or callId, name := buffer.name.or name
               arguments := buffer.arguments ++ arguments }) :: buffers
    else (key', buffer) :: addPiece key callId name arguments buffers

/-- Write the text that was collected; whether that fails. -/
def flushText (sessionId runId assistantMessageId : String) (st : StreamState) :
    ServerProgram (StreamState × Bool) := do
  match ← (persistDelta sessionId runId assistantMessageId (.text st.textBuffer)).attempt with
  | .ok _ => return ({ st with textBuffer := "" }, false)
  | .error e => return ({ st with textBuffer := "", outcome := .failed e.message false }, true)

/-- Write the calls that came in pieces, until one fails. -/
def flushTools (sessionId runId assistantMessageId : String) :
    List (String × ToolCallBuffer) → ExecutionResult → ServerProgram ExecutionResult
  | [], outcome => return outcome
  | (_, buffer) :: buffers, outcome => do
    match ← (persistDelta sessionId runId assistantMessageId
        (.toolCall buffer.callId buffer.name buffer.arguments)).attempt with
    | .ok .requiresAction => return .requiresAction
    | .ok _ => flushTools sessionId runId assistantMessageId buffers outcome
    | .error e => return .failed e.message false

/-- Record a piece and note its result; whether nothing more is read of the frame. -/
def recordDelta (sessionId runId assistantMessageId : String) (st : StreamState)
    (delta : ProviderDelta) : ServerProgram (StreamState × Bool) := do
  match ← (persistDelta sessionId runId assistantMessageId delta).attempt with
  | .ok (.usage value) => return ({ st with usage := some value }, false)
  | .ok .none => return (st, false)
  | .ok .requiresAction => return ({ st with outcome := .requiresAction }, true)
  | .error e => return ({ st with outcome := .failed e.message false }, true)

/-- Whether the text collected so far is to be written. -/
def textDue (text : String) : ServerProgram Bool := do
  if text.utf8ByteSize < 4096 then ask .flushDue else return true

/-- One piece of a frame. -/
def readDelta (sessionId runId assistantMessageId : String) (st : StreamState) :
    ProviderDelta → ServerProgram (StreamState × Bool)
  | .toolCallDelta index callId name arguments =>
    return ({ st with
      sawDelta := true
      toolBuffers := addPiece (toolBufferKey st.toolBuffers index callId) callId name arguments
        st.toolBuffers }, false)
  | .text text => do
    let st := { st with sawDelta := true, textBuffer := st.textBuffer ++ text }
    if ← textDue st.textBuffer then flushText sessionId runId assistantMessageId st
    else return (st, false)
  | .completed => do
    let outcome ← flushTools sessionId runId assistantMessageId st.toolBuffers st.outcome
    recordDelta sessionId runId assistantMessageId
      { st with sawCompleted := true, toolBuffers := [], outcome } .completed
  | .toolCall callId name arguments =>
    recordDelta sessionId runId assistantMessageId { st with sawDelta := true }
      (.toolCall callId name arguments)
  | .usage value => recordDelta sessionId runId assistantMessageId st (.usage value)
  | .requiresAction => recordDelta sessionId runId assistantMessageId st .requiresAction

/-- The pieces of a frame. -/
def readDeltas (sessionId runId assistantMessageId : String) :
    List ProviderDelta → StreamState → ServerProgram StreamState
  | [], st => return st
  | delta :: deltas, st => do
    let (st, stop) ← readDelta sessionId runId assistantMessageId st delta
    if stop then return st else readDeltas sessionId runId assistantMessageId deltas st

/-- The frames that a chunk completes. -/
def readFrames (sessionId runId assistantMessageId : String) :
    List (Except String (List ProviderDelta)) → StreamState → ServerProgram StreamState
  | [], st => return st
  | .error e :: _, st => return { st with outcome := .failed e false }
  | .ok deltas :: frames, st => do
    let st ← readDeltas sessionId runId assistantMessageId deltas st
    if st.over then return st else readFrames sessionId runId assistantMessageId frames st

/-- The loop that reads a stream. -/
def readItems (sessionId runId assistantMessageId : String) :
    List StreamItem → StreamState → TurnProgram StreamState
  | [], st => return st
  | .cancelled :: _, _ => exit .cancelled
  | .shutdown :: _, _ => exit .interrupted
  | .tick :: items, st => do
    if st.textBuffer.isEmpty then readItems sessionId runId assistantMessageId items st
    else
      let (st, stop) ← orFail (flushText sessionId runId assistantMessageId st)
      if stop then return st else readItems sessionId runId assistantMessageId items st
  | .broken e :: _, st => return { st with outcome := .failed e !st.sawDelta }
  | .chunk frames :: items, st => do
    let st ← orFail (readFrames sessionId runId assistantMessageId frames st)
    if st.over then return st else readItems sessionId runId assistantMessageId items st

def readStream (sessionId runId assistantMessageId : String) (items : List StreamItem) :
    TurnProgram StreamState := do
  let st ← readItems sessionId runId assistantMessageId items {}
  if st.outcome = .completed ∧ st.sawCompleted = false then
    return { st with outcome := .failed "provider stream ended before a completion event" false }
  else return st

/-- The pieces of a response that is read as a whole. -/
def readWhole (sessionId runId assistantMessageId : String) :
    List ProviderDelta → StreamState → ServerProgram StreamState
  | [], st => return st
  | .text text :: deltas, st =>
    readWhole sessionId runId assistantMessageId deltas { st with textBuffer := st.textBuffer ++ text }
  | delta :: deltas, st => do
    let (st, stop) ← recordDelta sessionId runId assistantMessageId st delta
    if stop then return st else readWhole sessionId runId assistantMessageId deltas st

def readText (sessionId runId assistantMessageId : String) : TextReply → TurnProgram StreamState
  | .cancelled => exit .cancelled
  | .shutdown => exit .interrupted
  | .broken e => return { outcome := .failed e true }
  | .text (.error e) => return { outcome := .failed e false }
  | .text (.ok deltas) => orFail (readWhole sessionId runId assistantMessageId deltas {})

def bodyStreamMode (body : Json) : Bool := ((body.get "stream").bind Json.asBool?).getD true

/-! ## Executing a run -/

/-- The provider and the body of a run, which stay the same in further attempts. -/
structure RunExecution where
  provider : ResolvedProvider
  body : Json

def ResolveError.message : ResolveError → String
  | .notFound name => s!"provider {name} is not configured"
  | .other message => message

/-- The configuration and the provider of a run. -/
def initialConfig (request : RunRequest) : TurnProgram (PiqoConfig × ResolvedProvider) := do
  match ← query .configSnapshot with
  | .error message => exit (.failed message false)
  | .ok config => match ← query (.resolveProvider request.provider) with
    | .error e => exit (.failed e.message false)
    | .ok provider => return (config, provider)

/-- What a request is executed with: what an earlier attempt was, or the current configuration. -/
def chooseExecution (request : RunRequest) :
    Option RunExecution → TurnProgram (RunExecution ⊕ (PiqoConfig × ResolvedProvider))
  | some execution => return .inl execution
  | none => return .inr (← initialConfig request)

/-- How often a connection is tried again. -/
def maxRetries : Nat := 5

/-- The id of the attempt. The first one has been recorded with the start of the run. -/
def startAttempt (sessionId : String) (run : RunProjection) (left : Nat) : TurnProgram String := do
  if left = maxRetries then
    match run.attemptId with
    | some attemptId => return attemptId
    | none => query .newUuid
  else
    let attemptId ← query .newUuid
    let _ ← orFail (append sessionId
      (.runAttemptStarted run.runId attemptId (run.attempts + (maxRetries - left))))
    return attemptId

/-- The input of a run as the content of a message. -/
def RunRequest.inputBlock (request : RunRequest) : ContentBlock :=
  match request.input.asStr? with
  | some text => .text text
  | none => .json request.input

def writeUserMessage (sessionId : String) (request : RunRequest) : ServerProgram Unit := do
  let userMessageId ← ask .newUuid
  let _ ← append sessionId (.messageStarted userMessageId "" .user .user)
  let _ ← append sessionId (.messageContentAppended userMessageId request.inputBlock)
  let _ ← append sessionId (.messageCompleted userMessageId)
  return ()

/-- The user's message is written in the first attempt at a run that is not a retry. -/
def enterInput (sessionId : String) (run : RunProjection) (request : RunRequest)
    (existing : Option String) : TurnProgram Unit :=
  if run.retryOf = none ∧ existing = none then orFail (writeUserMessage sessionId request)
  else return ()

/-- The body of a first attempt. -/
def buildExecution (sessionId : String) (run : RunProjection) (request : RunRequest)
    (config : PiqoConfig) (provider : ResolvedProvider) : ServerProgram RunExecution := do
  let session ← onStore (.getSession sessionId)
  let catalog ← ask .mcpCatalog
  let body ← buildCompactedBody sessionId run.runId {
    request, config, provider
    nativeTools := offeredNativeTools config session.projectId request
    mcpTools := offeredMcpTools config catalog request }
  return { provider, body }

/-- A body that is too large is not sent. -/
def checkSize (body : Json) : TurnProgram Unit := do
  match ← query .configSnapshot with
  | .error message => exit (.failed message false)
  | .ok config =>
    if config.maxProviderRequestBytes < body.size then
      exit (.failed "provider_request_too_large" false)

/-- The message of the assistant: the one of the attempt before, or a new one. -/
def openAssistantMessage (sessionId : String) (existing : Option String) : TurnProgram String :=
  match existing with
  | some messageId => return messageId
  | none => do
    let messageId ← query .newUuid
    let _ ← orFail (append sessionId
      (.messageStarted messageId "assistant" .assistant (.agent "assistant")))
    return messageId

/-- The HTTP request must be valid. -/
def buildRequest (body : Json) : TurnProgram Unit := do
  match ← query (.buildRequest body) with
  | .error message => exit (.failed message false)
  | .ok () => return ()

/-- That an attempt failed is recorded where it can be. -/
def recordFailedAttempt (sessionId runId attemptId error : String) : ServerProgram Unit := do
  let _ ← (append sessionId (.runAttemptFailed runId attemptId error true)).attempt
  return ()

/-- Send the request, and again where the connection fails; the response, and the attempt it came
from. -/
def sendRequest (sessionId : String) (run : RunProjection) (body : Json) :
    Nat → String → TurnProgram (ProviderResponse × String)
  | left, attemptId => do
    match ← query (.send run.runId body) with
    | .cancelled => exit .cancelled
    | .shutdown => exit .interrupted
    | .response response => return (response, attemptId)
    | .failed error => match left with
      | 0 => exit (.failed error false)
      | left + 1 =>
        orFail (recordFailedAttempt sessionId run.runId attemptId error)
        let nextAttemptId ← query .newUuid
        let _ ← orFail (append sessionId
          (.runAttemptStarted run.runId nextAttemptId (run.attempts + (maxRetries - left))))
        if ← query .sleep then exit .interrupted
        else sendRequest sessionId run body left nextAttemptId

/-- The text that is left over is written. -/
def flushRest (sessionId runId assistantMessageId : String) (st : StreamState) :
    TurnProgram Unit := do
  if st.textBuffer.isEmpty then return ()
  else
    let _ ← Program.recover (fun e => .error (e.exit st.sawDelta))
      (persistDelta sessionId runId assistantMessageId (.text st.textBuffer))
    return ()

/-- A response that reports an error ends the run. -/
def checkStatus (response : ProviderResponse) : TurnProgram Unit :=
  if response.success then return ()
  else exit (.failed ("provider returned " ++ response.status) false)

/-- The response as a stream or as a whole. -/
def readBody (sessionId runId assistantMessageId : String) (body : Json)
    (response : ProviderResponse) : TurnProgram StreamState :=
  if bodyStreamMode body then readStream sessionId runId assistantMessageId response.stream
  else readText sessionId runId assistantMessageId response.text

/-- Read a response to its end. -/
def readResponse (sessionId runId assistantMessageId : String) (body : Json)
    (response : ProviderResponse) : TurnProgram StreamState := do
  checkStatus response
  let st ← readBody sessionId runId assistantMessageId body response
  flushRest sessionId runId assistantMessageId st
  return st

/-- What an attempt leaves for the next one. -/
structure Attempt where
  state : StreamState
  execution : RunExecution
  assistantMessageId : String
  attemptId : String

/-- The execution of a first attempt is built, that of a further one is there. -/
def execution (sessionId : String) (run : RunProjection) (request : RunRequest) :
    RunExecution ⊕ (PiqoConfig × ResolvedProvider) → TurnProgram RunExecution
  | .inl execution => return execution
  | .inr (config, provider) => orFail (buildExecution sessionId run request config provider)

/-- One attempt at a run, with `left` of the five retries left. -/
def attemptRun (sessionId : String) (run : RunProjection) (earlier : Option RunExecution)
    (existing : Option String) (left : Nat) : TurnProgram Attempt := do
  let request ← orFail (expect .json (RunRequest.ofJson? run.request))
  let chosen ← chooseExecution request earlier
  let attemptId ← startAttempt sessionId run left
  enterInput sessionId run request existing
  let execution ← execution sessionId run request chosen
  checkSize execution.body
  let assistantMessageId ← openAssistantMessage sessionId existing
  buildRequest execution.body
  let (response, attemptId) ← sendRequest sessionId run execution.body left attemptId
  let state ← readResponse sessionId run.runId assistantMessageId execution.body response
  return { state, execution, assistantMessageId, attemptId }

/-- The attempts at a run, with `left` of the five retries left. -/
def executeAttempts (sessionId : String) (run : RunProjection) :
    Option RunExecution → Option String → Nat → TurnProgram ExecutionResult
  | earlier, existing, left => do
    let t ← attemptRun sessionId run earlier existing left
    match t.state.outcome with
    | .failed error true =>
      if ← query .isShutdown then return .interrupted
      else match left with
        | 0 => return .failed error true
        | left + 1 =>
          orFail (recordFailedAttempt sessionId run.runId t.attemptId error)
          if ← query .sleep then return .interrupted
          else executeAttempts sessionId run (some t.execution) (some t.assistantMessageId) left
    | .completed => return .completedWithUsage t.state.usage
    | other => return other

def executeRun (sessionId : String) (run : RunProjection) : ServerProgram ExecutionResult :=
  (executeAttempts sessionId run none none maxRetries).recover TurnExit.settle

/-- `tokio::time::timeout`: before each of its operations a program may be given up. -/
def withTimeout {α : Type} : ServerProgram α → ServerProgram (Option α)
  | .ret a => .ret (some a)
  | .fail e => .fail e
  | .call op k => .call (.external .timedOut) fun late : Bool =>
    if late then .ret none else .call op fun r => withTimeout (k r)

/-- The budget under which a session was delegated. -/
def childBudget (sessionId : String) : ServerProgram (Option AgentBudget) := do
  return (childLink sessionId (← onStore (.agentLinks sessionId))).map (·.budget)

def maxModelTurns (sessionId : String) : ServerProgram Nat := do
  match ← childBudget sessionId with
  | some budget => return budget.maxModelTurns
  | none => return (← snapshot).maxModelTurns

def executeRunWithChildTimeout (sessionId : String) (run : RunProjection) :
    ServerProgram ExecutionResult := do
  match ← (childBudget sessionId).attempt with
  | .error e => return .failed e.message false
  | .ok none => executeRun sessionId run
  | .ok (some _) => match ← withTimeout (executeRun sessionId run) with
    | some result => return result
    | none =>
      let _ ← ask (.cancelToken run.runId)
      return .failed "child_timeout" false

/-! ## Finishing a run -/

/-- `interrupt_message`: the last message of the assistant that is open. -/
def SessionProjection.openAssistant (p : SessionProjection) : Option MessageProjection :=
  p.messages.reverse.find? fun m => m.role = .assistant && !m.completed && !m.interrupted

/-- What a completed run looks for instead: the last message of the assistant that is not
completed. -/
def SessionProjection.incompleteAssistant (p : SessionProjection) : Option MessageProjection :=
  p.messages.reverse.find? fun m => m.role = .assistant && !m.completed

def interruptMessage (sessionId : String) : ServerProgram Unit := do
  match (← onStore (.projection sessionId)).openAssistant with
  | none => return ()
  | some message =>
    let _ ← append sessionId (.messageInterrupted message.messageId)
    return ()

/-- Complete the message that the run found. -/
def completeMessage (sessionId : String)
    (find : SessionProjection → Option MessageProjection) : ServerProgram Unit := do
  match find (← onStore (.projection sessionId)) with
  | none => return ()
  | some message =>
    let _ ← append sessionId (.messageCompleted message.messageId)
    return ()

/-- The status that a parent is told. -/
def RunStatus.terminal? : RunStatus → Option AgentTerminalStatus
  | .completed => some .completed
  | .failed => some .failed
  | .cancelled => some .cancelled
  | .interrupted => some .interrupted
  | .queued | .running | .requiresAction => none

/-- The longest prefix of whole characters within the bytes. -/
def truncateChars : Nat → List Char → List Char
  | _, [] => []
  | left, c :: cs => if c.utf8Size ≤ left then c :: truncateChars (left - c.utf8Size) cs else []

def truncateUtf8 (value : String) (maxBytes : Nat) : String × Bool :=
  if value.utf8ByteSize ≤ maxBytes then (value, false)
  else (String.ofList (truncateChars maxBytes value.toList), true)

/-- The text of a message. -/
def MessageProjection.text (m : MessageProjection) : String :=
  String.join (m.blocks.map fun
    | .text text => text
    | .json _ => "")

/-- The text of the last message of the assistant. -/
def SessionProjection.lastOutput (p : SessionProjection) : String :=
  ((p.messages.reverse.find? (·.role = .assistant)).map (·.text)).getD ""

/-- The result of a child, as its parent gets it. -/
def childResult (link : AgentLinkRecord) (child : SessionProjection)
    (status : AgentTerminalStatus) : AgentResult :=
  let (output, outputTruncated) := truncateUtf8 child.lastOutput link.budget.maxResultBytes
  { instanceId := link.instanceId
    profileId := link.profileId
    childSessionId := link.childSessionId
    childRunId := link.childRunId
    status
    output := if status = .completed then some (.str output) else none
    outputTruncated
    usage := none
    error := match status with
      | .completed => none
      | .failed => some "child_failed"
      | .cancelled => some "child_cancelled"
      | .interrupted => some "child_interrupted" }

/-- Whether the session knows the result of an agent. -/
def SessionProjection.knowsResult (p : SessionProjection) (instanceId : String) : Bool :=
  ((p.agentInstances.get? instanceId).bind (·.result)).isSome

/-- The child session gets the result first. -/
def recordChildResult (link : AgentLinkRecord) (child : SessionProjection) (result : AgentResult) :
    ServerProgram Unit :=
  if child.knowsResult link.instanceId then return ()
  else do
    let _ ← append link.childSessionId (.agentFinished link.instanceId (some result))
    return ()

/-- The result goes to the call of the parent; the parent is processed next where no other call is
open. -/
def tellParent (link : AgentLinkRecord) (result : AgentResult) : ServerProgram (Option String) := do
  let parent ← onStore (.projection link.parentSessionId)
  if parent.knowsResult link.instanceId then return none
  else
    let parentRun ← expect (.runNotFound link.parentRunId) (parent.runs.get? link.parentRunId)
    let allReady := parentRun.toolCalls.values.all fun call =>
      call.callId = link.parentCallId || call.result.isSome
    let _ ← appendMany link.parentSessionId ([
      .agentFinished link.instanceId (some result),
      .agentResultDelivered link.instanceId link.parentRunId link.parentCallId result,
      .toolResult link.parentRunId link.parentCallId "delegate" "delegate" result.toJson] ++
        if allReady then [.queueResumed] else [])
    return if allReady then some link.parentSessionId else none

/-- The parent session to process next, if any. -/
def deliverChildResult (childSessionId childRunId : String) : ServerProgram (Option String) := do
  match (← onStore (.agentLinks childSessionId)).find? fun link =>
      link.childSessionId = childSessionId && link.childRunId = childRunId with
  | none => return none
  | some link =>
    let (child, run) ← loadRun childSessionId childRunId
    match run.status.terminal? with
    | none => return none
    | some status =>
      let result := childResult link child status
      recordChildResult link child result
      tellParent link result

/-- A run that came to its end with open calls waits for them. -/
def pauseRun (fuel : Nat) (sessionId : String) (run : RunProjection) :
    ExecutionResult → ServerProgram ExecutionResult
  | .completed => do
    match ← (onStore (.projection sessionId)).attempt with
    | .error e => return .failed e.message false
    | .ok projection =>
      match (((projection.runs.get? run.runId).map fun run =>
        (run.toolCalls.values.filter (·.result.isNone)).map (·.callId)).getD []) with
      | [] => return .completed
      | callIds => match ← (append sessionId (.runRequiresAction run.runId callIds)).attempt with
        | .error _ => return .failed "unable to persist required action" false
        | .ok _ => match ← (evaluateToolPermissions fuel sessionId run).attempt with
          | .ok () => return .requiresAction
          | .error .panicked => .fail .panicked
          | .error .diverged => .fail .diverged
          | .error e => return .failed e.message false
  | result => return result

/-- Close the message of the assistant, record how the run ended, and leave the phase. -/
def closeRun (sessionId : String) (run : RunProjection) : ExecutionResult → ServerProgram Unit
  | .completedWithUsage usage => do
    completeMessage sessionId (·.incompleteAssistant)
    let _ ← append sessionId (.runCompleted run.runId usage)
    return ()
  | .cancelled => do
    interruptMessage sessionId
    let _ ← append sessionId (.runCancelled run.runId (some "cancelled_by_user"))
    let _ ← append sessionId (.sessionPhaseChanged .running .interrupted (some "run_cancelled"))
    return ()
  | .interrupted => do
    interruptMessage sessionId
    let _ ← append sessionId (.runInterrupted run.runId "server_shutdown")
    let _ ← append sessionId (.sessionPhaseChanged .running .interrupted (some "server_shutdown"))
    return ()
  | .requiresAction => do
    completeMessage sessionId (·.openAssistant)
    let _ ← append sessionId (.sessionPhaseChanged .running .interrupted (some "requires_action"))
    return ()
  | .failed error _ => do
    interruptMessage sessionId
    let _ ← append sessionId (.runFailed run.runId error)
    let _ ← append sessionId (.sessionPhaseChanged .running .failed (some "run_failed"))
    return ()
  | .completed => return ()

def finishRun (fuel : Nat) (sessionId : String) (run : RunProjection) (result : ExecutionResult) :
    ServerProgram (Option String) := do
  let result ← pauseRun fuel sessionId run result
  closeRun sessionId run result
  deliverChildResult sessionId run.runId

/-! ## The loop -/

/-- What a worker does after an iteration: nothing more, another one, or the parent of the session
first. -/
inductive Next where
  | done
  | again
  | parentFirst (sessionId : String)
  deriving DecidableEq

/-- A run that has been started is executed and finished. -/
def executeAndFinish (fuel : Nat) (sessionId : String) (run : RunProjection) :
    ServerProgram Next := do
  if ← ask .acquireActive then
    let result ← executeRunWithChildTimeout sessionId run
    ask (.removeToken run.runId)
    match ← finishRun fuel sessionId run result with
    | none => return .again
    | some parentSessionId => return .parentFirst parentSessionId
  else .fail .shuttingDown

/-- A run whose calls all have results goes on. -/
def continueRun (fuel : Nat) (sessionId : String) (run : RunProjection) : ServerProgram Next := do
  let maxTurns ← maxModelTurns sessionId
  if maxTurns ≤ run.attempts then
    let _ ← append sessionId
      (.runFailed run.runId s!"maximum model turns ({maxTurns}) exceeded")
    return .again
  else
    let _ ← append sessionId .queueResumed
    let attemptId ← ask .newUuid
    let _ ← append sessionId (.runStarted run.runId attemptId (run.attempts + 1))
    ask (.registerToken run.runId)
    executeAndFinish fuel sessionId run

/-- Without a queued run the session is finished. -/
def finishQueue (sessionId : String) (phase : SessionPhase) : ServerProgram Next :=
  if phase = .running then do
    let _ ← append sessionId (.sessionPhaseChanged .running .finished (some "queue_empty"))
    return .done
  else return .done

/-- The session enters the running phase. -/
def enterRunning (sessionId : String) (phase : SessionPhase) : ServerProgram Unit :=
  if phase = .running then return ()
  else do
    let _ ← append sessionId (.sessionPhaseChanged phase .running (some "run_started"))
    return ()

/-- The next queued run is started. -/
def startRun (fuel : Nat) (sessionId : String) (phase : SessionPhase) (run : RunProjection) :
    ServerProgram Next := do
  enterRunning sessionId phase
  let attemptId ← ask .newUuid
  ask (.registerToken run.runId)
  match ← (append sessionId (.runStarted run.runId attemptId (run.attempts + 1))).attempt with
  | .error e =>
    ask (.removeToken run.runId)
    .fail e
  | .ok _ =>
    executeAndFinish fuel sessionId
      { run with attemptId := some attemptId, attempts := run.attempts + 1 }

/-- One iteration of the loop. -/
def iteration (fuel : Nat) (sessionId : String) : ServerProgram Next := do
  if ← ask .isShutdown then return .done
  else
    let projection ← onStore (.projection sessionId)
    if projection.activeRun.isSome then return .done
    else match projection.readyActionRun with
      | some run => continueRun fuel sessionId run
      | none =>
        if projection.queuePaused then return .done
        else match projection.queuedRuns.head? with
          | none => finishQueue sessionId projection.state.phase
          | some run => startRun fuel sessionId projection.state.phase run

/-- The loop, and the loop of the parent inside it. -/
def processSession : Nat → String → ServerProgram Unit
  | 0, _ => .fail .diverged
  | fuel + 1, sessionId => do
    match ← iteration fuel sessionId with
    | .done => return ()
    | .again => processSession fuel sessionId
    | .parentFirst parentSessionId =>
      processSession fuel parentSessionId
      processSession fuel sessionId

end Piqo
