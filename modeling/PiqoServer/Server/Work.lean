import PiqoServer.Server.Shutdown
import PiqoServer.Server.Startup
import PiqoServer.Server.ToolResults

/-!
# What the server has under way

The programs of `SessionSupervisor` (`piqo-server/src/supervisor.rs`) that run side by side:
requests, workers, startup and the last step of a shutdown.

A run that is not executed is cancelled by an event, one that is executed through its token.
Cancelling a run cancels those of its children.

## Main definitions

* `cancel`: the request
* `ServerWork`: what may be under way
-/

namespace Piqo

/-! ## Cancelling -/

/-- Cancel the runs of children in turn; it does not matter whether one can be cancelled. -/
def cancelChildren (cancelChild : String → String → ServerProgram Unit) :
    List AgentLinkRecord → ServerProgram Unit
  | [] => return ()
  | link :: links => do
    match ← (cancelChild link.childSessionId link.childRunId).attempt with
    | .error .panicked => .fail .panicked
    | .error .diverged => .fail .diverged
    | _ => cancelChildren cancelChild links

/-- The parent is told, and processed where it can go on. -/
def deliverAndProcess (fuel : Nat) (sessionId runId : String) : ServerProgram Unit := do
  match ← deliverChildResult sessionId runId with
  | none => return ()
  | some parentSessionId => processSession fuel parentSessionId

/-- The links of the children of a run. -/
def childLinks (sessionId runId : String) (links : List AgentLinkRecord) : List AgentLinkRecord :=
  links.filter fun link => link.parentSessionId = sessionId && link.parentRunId = runId

/-- `cancel`. -/
def cancel : Nat → String → String → ServerProgram Unit
  | 0, _, _ => .fail .diverged
  | fuel + 1, sessionId, runId => do
    if ← ask .isShutdown then .fail .shuttingDown
    ensureSessionMutable sessionId
    let (_, run) ← loadRun sessionId runId
    match run.status with
    | .queued | .requiresAction =>
      let _ ← append sessionId (.runCancelled runId (some "cancelled_by_user"))
      let links ← onStore (.agentLinks sessionId)
      cancelChildren (cancel fuel) (childLinks sessionId runId links)
      deliverAndProcess fuel sessionId runId
    | .running =>
      if ← ask (.cancelToken runId) then return ()
      else .fail (.conflict "run is stopping")
    | .completed | .failed | .cancelled | .interrupted =>
      .fail (.conflict "run is already terminal")

/-! ## Programs side by side -/

/-- What the server may have under way: the requests and workers that a shutdown meets, other
requests, the decision about the calls of a run, startup, and the last step of a shutdown. -/
inductive ServerWork where
  | inFlight (operation : InFlight)
  | cancel (sessionId runId : String)
  | submitToolResult (sessionId runId callId : String) (result : Json)
  | evaluateToolPermissions (sessionId : String) (run : RunProjection)
  | startup
  | interruptRemainingRuns (reason : String)

namespace InFlight

/-- The session of an operation. -/
def sessionId : InFlight → String
  | .queueRun sessionId _ | .retry sessionId _ | .resume sessionId | .approve sessionId _ _ _
  | .deny sessionId _ _ | .worker sessionId => sessionId

end InFlight

namespace ServerWork

def program (fuel : Nat) : ServerWork → ServerProgram Unit
  | .inFlight operation => operation.program fuel
  | .cancel sessionId runId => Piqo.cancel fuel sessionId runId
  | .submitToolResult sessionId runId callId result =>
    Piqo.submitToolResult sessionId runId callId result
  | .evaluateToolPermissions sessionId run => Piqo.evaluateToolPermissions fuel sessionId run
  | .startup => Piqo.startup
  | .interruptRemainingRuns reason => Piqo.interruptRemainingRuns reason

/-- The session of a request; startup and shutdown are about all sessions. -/
def sessionId? : ServerWork → Option String
  | .inFlight operation => some operation.sessionId
  | .cancel sessionId _ | .submitToolResult sessionId _ _ _
  | .evaluateToolPermissions sessionId _ => some sessionId
  | .startup | .interruptRemainingRuns _ => none

end ServerWork

end Piqo
