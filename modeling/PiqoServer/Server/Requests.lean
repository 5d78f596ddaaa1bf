import PiqoServer.Server.Actions

/-!
# Requests that start work

What the API calls on the supervisor to have a session worked on: `queue_run`, `resume` and `retry`
(`piqo-server/src/supervisor.rs`). Each looks at the shutdown token first and at nothing of it
later, except where it starts a worker.

## Main definitions

* `queueRun`, `resume`, `retry`: the requests
-/

namespace Piqo

/-- Reserve a place for a run. -/
def reserveAdmission (sessionId runId : String) : ServerProgram Unit := do
  match ← ask (.reserveAdmission sessionId runId) with
  | .ok () => return ()
  | .error e => .fail e

/-- Append the events that queue a run; a run that is not queued gives its place back. -/
def appendQueued (sessionId runId : String) (events : List SemanticEvent) :
    ServerProgram Unit := do
  match ← (appendMany sessionId events).attempt with
  | .ok _ => return ()
  | .error e =>
    ask (.releaseAdmission runId)
    .fail e

/-- `queue_run`. -/
def queueRun (sessionId : String) (request : RunRequest) : ServerProgram String := do
  if ← ask .isShutdown then .fail .shuttingDown
  ensureSessionMutable sessionId
  if (← onStore (.projection sessionId)).queuePaused then .fail .queuePaused
  if request.provider.isEmpty || request.model.isEmpty then
    .fail (.invalidRequest "provider and model are required")
  let _ ← resolveProvider request.provider
  let runId ← ask .newUuid
  reserveAdmission sessionId runId
  appendQueued sessionId runId
    [.runQueued runId none request.provider request.model request.toJson]
  spawnWorker sessionId
  return runId

def resume (sessionId : String) : ServerProgram Unit := do
  if ← ask .isShutdown then .fail .shuttingDown
  ensureSessionMutable sessionId
  if !(← onStore (.projection sessionId)).queuePaused then .fail .queueNotPaused
  let _ ← append sessionId .queueResumed
  spawnWorker sessionId

/-- The runs that can be retried. -/
def RunStatus.retryable : RunStatus → Bool
  | .failed | .interrupted | .cancelled => true
  | .queued | .running | .requiresAction | .completed => false

/-- `retry`: a new run with the same request, before the other queued ones. -/
def retry (sessionId runId : String) : ServerProgram String := do
  if ← ask .isShutdown then .fail .shuttingDown
  ensureSessionMutable sessionId
  let (_, run) ← loadRun sessionId runId
  if !run.status.retryable then
    .fail (.conflict "only failed, interrupted or cancelled runs can be retried")
  let request ← expect .json (RunRequest.ofJson? run.request)
  let newId ← ask .newUuid
  reserveAdmission sessionId newId
  let projection ← onStore (.projection sessionId)
  appendQueued sessionId newId
    ([.runQueued newId (some runId) request.provider request.model request.toJson] ++
      if projection.queuePaused then [.queueResumed] else [])
  spawnWorker sessionId
  return newId

end Piqo
