import PiqoServer.Server.Body
import PiqoServer.Storage.Interleaving

/-!
# What the supervisor calls

`SessionSupervisor` (`piqo-server/src/supervisor.rs`) is a set of programs over the operations of
the store, of the event hub, of the worker pool, and of what lies outside: configuration, clock,
random ids, MCP servers, the native tools. The replies from outside are the environment's.

Cancellation tokens show in the replies of the operations that watch them.

## Main definitions

* `ExternalOp`, `ServerOp`, `serverSignature`: the operations
* `Surroundings`, `World`, `World.handle`: one program at a time, against the store
* `localize`: a program as the tasks of one session see it
* `append`, `appendMany`: commit, then publish
* `Quiet`, `only_appendMany`: protocols and appending
-/

namespace Piqo

/-! ## Operations -/

/-- Why a provider cannot be resolved. -/
inductive ResolveError where
  | notFound (name : String)
  | other (message : String)
  deriving DecidableEq, Repr

/-- What a run uses of a resolved provider. -/
structure ResolvedProvider where
  protocol : ProviderProtocol
  deriving DecidableEq, Repr

/-- The outcomes of `McpManager::call` that the supervisor tells apart. -/
inductive McpError where
  | invalidArguments | resultTooLarge | other
  deriving DecidableEq, Repr

/-- What comes of one attempt to have a conversation summarised: the text of the reply is JSON with
a summary that is not blank, or it is not. -/
inductive SummaryReply where
  | cancelled | failed | rejected
  | text (summary : Option String)
  deriving DecidableEq, Repr

/-- What a provider sends, piece by piece. -/
inductive ProviderDelta where
  | text (text : String)
  | toolCall (callId name : Option String) (arguments : String)
  | toolCallDelta (index : Option Nat) (callId name : Option String) (arguments : String)
  | usage (value : Json)
  | completed
  | requiresAction
  deriving DecidableEq

/-- What a run that reads a stream comes upon next. A chunk completes frames, each of them parsed or
refused; where nothing comes next the stream has ended. -/
inductive StreamItem where
  | cancelled | shutdown
  /-- The interval at which text is written. -/
  | tick
  | chunk (frames : List (Except String (List ProviderDelta)))
  | broken (error : String)

/-- What comes of reading a response as a whole. -/
inductive TextReply where
  | cancelled | shutdown
  | broken (error : String)
  | text (deltas : Except String (List ProviderDelta))

/-- A response, as a stream and as a whole. -/
structure ProviderResponse where
  status : String
  success : Bool
  stream : List StreamItem
  text : TextReply

/-- What comes of sending a request. -/
inductive SendReply where
  | cancelled | shutdown
  | failed (error : String)
  | response (response : ProviderResponse)

/-- Operations whose replies come from outside. -/
inductive ExternalOp where
  | configSnapshot
  | resolveProvider (name : String)
  | mcpCatalog
  | newUuid
  | readClock
  | isShutdown
  | isDeleting (projectId : String)
  | releaseAdmission (runId : String)
  /-- The place where the side effect of a claimed call begins; the code does nothing here. -/
  | beginEffect (runId callId : String)
  /-- Finding the shell and opening the workspace for the native tools. -/
  | openExecutor (path : String)
  | executeNative (tool : NativeTool) (arguments : Json)
  | mcpCall (toolName : String) (arguments : Json)
  /-- What discovery has found out about a model. -/
  | modelMetadata (provider model : String)
  /-- Making the HTTP request for a body. -/
  | buildRequest (body : Json)
  | summarize (body : Json)
  /-- Sending the request of a run, unless the run is cancelled or the server shut down first. -/
  | send (runId : String) (body : Json)
  /-- Waiting for another attempt; whether the server is shut down first. -/
  | sleep
  /-- Whether text was written long enough ago. -/
  | flushDue
  /-- Whether the time of a child is over. -/
  | timedOut
  /-- `serde_json::from_str`. -/
  | parseJson (text : String)
  | registerToken (runId : String)
  | removeToken (runId : String)
  /-- Cancelling the token of a run; whether there is one. -/
  | cancelToken (runId : String)
  | acquireActive
  | reserveAdmission (sessionId runId : String)
  deriving DecidableEq

/-- What an external operation replies. -/
abbrev ExternalOp.Reply : ExternalOp → Type
  | .configSnapshot => Except String PiqoConfig
  | .resolveProvider _ => Except ResolveError ResolvedProvider
  | .mcpCatalog => McpCatalog
  | .newUuid | .readClock => String
  | .isShutdown | .isDeleting _ => Bool
  | .releaseAdmission _ | .beginEffect _ _ => Unit
  | .openExecutor _ => Except String Unit
  | .executeNative _ _ => Json
  | .mcpCall _ _ => Except McpError Json
  | .modelMetadata _ _ => Option Json
  | .buildRequest _ => Except String Unit
  | .summarize _ => SummaryReply
  | .send _ _ => SendReply
  | .sleep | .flushDue | .timedOut | .cancelToken _ | .acquireActive => Bool
  | .parseJson _ => Option Json
  | .registerToken _ | .removeToken _ => Unit
  | .reserveAdmission _ _ => Except StoreError Unit

/-- The operations of the supervisor. -/
inductive ServerOp where
  | store (op : StoreOp)
  | publish (record : RecordedEvent)
  | startWorker (sessionId : String)
  | external (op : ExternalOp)

/-- What an operation replies. -/
abbrev ServerOp.Reply : ServerOp → Type
  | .store op => Except StoreError op.Result
  | .publish _ | .startWorker _ => Unit
  | .external op => op.Reply

/-- The supervisor's operations as a signature. -/
abbrev serverSignature : Signature where
  Op := ServerOp
  Reply := ServerOp.Reply

/-- A program of the supervisor. -/
abbrev ServerProgram (α : Type) := Program serverSignature StoreError α

/-- A store operation whose error ends the program. -/
def onStore (op : StoreOp) : ServerProgram op.Result := .call (.store op) .ofExcept

/-- An operation answered from outside. -/
def ask (op : ExternalOp) : ServerProgram op.Reply := .call (.external op) .ret

section Follows

variable {A : Type} {allows : A → ServerOp → Prop} {next : A → (op : ServerOp) → op.Reply → A}
  {α β : Type} {Q : A → Except StoreError β → Prop} {a : A}

theorem follows_onStore {op : StoreOp} {f : op.Result → ServerProgram β}
    (hallowed : allows a (.store op))
    (hok : ∀ v, (f v).Follows allows next Q (next a (.store op) (.ok v)))
    (herror : ∀ e, Q (next a (.store op) (.error e)) (.error e)) :
    (onStore op >>= f).Follows allows next Q a := by
  refine ⟨hallowed, fun r => ?_⟩
  cases r with
  | ok v => exact hok v
  | error e => exact herror e

theorem follows_ask {op : ExternalOp} {f : op.Reply → ServerProgram β}
    (hallowed : allows a (.external op))
    (hreply : ∀ r, (f r).Follows allows next Q (next a (.external op) r)) :
    (ask op >>= f).Follows allows next Q a :=
  ⟨hallowed, hreply⟩

theorem follows_ofExcept {x : Except StoreError α} {f : α → ServerProgram β}
    (hok : ∀ v, x = .ok v → (f v).Follows allows next Q a)
    (herror : ∀ e, x = .error e → Q a (.error e)) :
    ((.ofExcept x : ServerProgram α) >>= f).Follows allows next Q a := by
  cases x with
  | ok v => exact hok v rfl
  | error e => exact herror e rfl

end Follows

/-! ## One program at a time -/

/-- What lies outside, by the number of operations so far. -/
structure Surroundings where
  answer : Nat → (op : ExternalOp) → op.Reply
  stamp : Nat → String → Nat → String

/-- Surroundings in which nothing fails: a fixed configuration, no MCP server, a provider that says
`hi`, ids and stamps by the number of the operation. -/
def Surroundings.plain (config : PiqoConfig) : Surroundings where
  answer n
    | .configSnapshot => .ok config
    | .resolveProvider _ => .ok ⟨.chatCompletions⟩
    | .mcpCatalog => ⟨[], by simp⟩
    | .newUuid => s!"id-{n}"
    | .readClock => "t1"
    | .isShutdown | .isDeleting _ => false
    | .releaseAdmission _ | .beginEffect _ _ => ()
    | .openExecutor _ => .ok ()
    | .executeNative _ _ => .null
    | .mcpCall _ _ => .ok .null
    | .modelMetadata _ _ => none
    | .buildRequest _ => .ok ()
    | .summarize _ => .text (some "summary")
    | .send _ _ => .response ⟨"200 OK", true, [.chunk [.ok [.text "hi", .completed]]], .text (.ok [])⟩
    | .sleep | .flushDue | .timedOut => false
    | .parseJson _ => none
    | .registerToken _ | .removeToken _ => ()
    | .cancelToken _ | .acquireActive => true
    | .reserveAdmission _ _ => .ok ()
  stamp _ _ _ := "t1"

/-- The store, the events published and the workers started, and the number of operations. -/
structure World where
  store : Store
  published : List RecordedEvent
  workers : List String
  clock : Nat

/-- One operation, run to its end. -/
def World.handle (env : Surroundings) : (op : ServerOp) → World → op.Reply × World
  | .store op, w =>
    let r := op.perform (env.stamp w.clock) w.store
    (r.1, { w with store := r.2, clock := w.clock + 1 })
  | .publish record, w =>
    ((), { w with published := w.published ++ [record], clock := w.clock + 1 })
  | .startWorker sessionId, w =>
    ((), { w with workers := w.workers ++ [sessionId], clock := w.clock + 1 })
  | .external op, w => (env.answer w.clock op, { w with clock := w.clock + 1 })

/-! ## Tasks of one session -/

section Localize

variable (sessionId : String) {ε α β : Type}

/-- A program as a task of the session: its appends and projections of the session are calls on
it, everything else is another operation. -/
def localize : Program serverSignature ε α → Program (sessionSignature serverSignature) ε α
  | .ret a => .ret a
  | .fail e => .fail e
  | .call (.store (.append id events)) k =>
    if id = sessionId then .call (.append events) fun r => localize (k r)
    else .call (.other (.store (.append id events))) fun r => localize (k r)
  | .call (.store (.projection id)) k =>
    if id = sessionId then .call .projection fun r => localize (k r)
    else .call (.other (.store (.projection id))) fun r => localize (k r)
  | .call op k => .call (.other op) fun r => localize (k r)

/-- The environment of a session's tasks; other sessions and tables cannot be reached. -/
def Surroundings.isolated (env : Surroundings) : Environment serverSignature where
  answer n
    | .store _ => .error .database
    | .publish _ | .startWorker _ => ()
    | .external op => env.answer n op
  now n := env.stamp n ""

end Localize

/-! ## Appending -/

/-- The run whose admission an event releases. -/
def terminalRun : SemanticEvent → Option String
  | .runCompleted runId _ | .runFailed runId _ | .runCancelled runId _ | .runInterrupted runId _ =>
    some runId
  | _ => none

def releaseTerminalAdmission (event : SemanticEvent) : ServerProgram Unit :=
  match terminalRun event with
  | some runId => ask (.releaseAdmission runId)
  | none => return ()

/-- Publish the records in turn, and release the runs they end. -/
def publishAll : List RecordedEvent → ServerProgram Unit
  | [] => return ()
  | record :: records => do
    .call (.publish record) .ret
    releaseTerminalAdmission record.event
    publishAll records

def appendMany (sessionId : String) (events : List SemanticEvent) :
    ServerProgram (List RecordedEvent) := do
  let records ← onStore (.append sessionId events)
  publishAll records
  return records

/-- `append_event` of the store returns the single record. -/
def append (sessionId : String) (event : SemanticEvent) : ServerProgram RecordedEvent := do
  match ← onStore (.append sessionId [event]) with
  | record :: _ =>
    publishAll [record]
    return record
  | [] => .fail (.corruptSession sessionId "empty append result")

def spawnWorker (sessionId : String) : ServerProgram Unit := do
  if ← ask .isShutdown then return ()
  .call (.startWorker sessionId) .ret

/-! ## Protocols and appending -/

/-- A protocol that pays no attention to publishing, to workers and to what ends with a run. -/
structure Quiet {A : Type} (allows : A → ServerOp → Prop)
    (next : A → (op : ServerOp) → op.Reply → A) : Prop where
  publish : ∀ a record, allows a (.publish record) ∧ next a (.publish record) () = a
  worker : ∀ a sessionId, allows a (.startWorker sessionId) ∧ next a (.startWorker sessionId) () = a
  release : ∀ a runId, allows a (.external (.releaseAdmission runId)) ∧
    next a (.external (.releaseAdmission runId)) () = a
  shutdown : ∀ a b, allows a (.external .isShutdown) ∧ next a (.external .isShutdown) b = a

section Quiet

variable {A : Type} {allows : A → ServerOp → Prop} {next : A → (op : ServerOp) → op.Reply → A}
  {a : A} {sessionId : String}

theorem Quiet.publishAll (h : Quiet allows next) (records : List RecordedEvent) :
    (publishAll records).Follows allows next (fun b x => b = a ∧ x = .ok ()) a := by
  induction records with
  | nil => exact ⟨rfl, rfl⟩
  | cons record records ih =>
    refine ⟨(h.publish a record).1, fun _ => ?_⟩
    rw [(h.publish a record).2]
    change (releaseTerminalAdmission record.event >>= fun _ => Piqo.publishAll records).Follows _ _ _ _
    unfold releaseTerminalAdmission
    cases terminalRun record.event with
    | none => exact ih
    | some runId =>
      refine follows_ask (h.release a runId).1 fun _ => ?_
      rw [(h.release a runId).2]
      exact ih

theorem Quiet.publishAll_then {β : Type} (h : Quiet allows next) (records : List RecordedEvent)
    {Q : A → Except StoreError β → Prop} {k : ServerProgram β} (hk : k.Follows allows next Q a) :
    (Piqo.publishAll records >>= fun _ => k).Follows allows next Q a := by
  refine (h.publishAll records).bind ?_ ?_
  · rintro b - ⟨rfl, -⟩
    exact hk
  · rintro b e ⟨-, he⟩
    cases he

theorem Quiet.appendMany (h : Quiet allows next) {events : List SemanticEvent}
    {Q : A → Except StoreError (List RecordedEvent) → Prop}
    (hallowed : allows a (.store (.append sessionId events)))
    (hQ : ∀ r, Q (next a (.store (.append sessionId events)) r) r) :
    (appendMany sessionId events).Follows allows next Q a :=
  follows_onStore hallowed (fun records => h.publishAll_then records (hQ (.ok records)))
    fun e => hQ (.error e)

theorem Quiet.append (h : Quiet allows next) {event : SemanticEvent}
    {Q : A → Except StoreError RecordedEvent → Prop}
    (hallowed : allows a (.store (.append sessionId [event])))
    (hok : ∀ records record, Q (next a (.store (.append sessionId [event])) (.ok records))
      (.ok record))
    (herror : ∀ r e, Q (next a (.store (.append sessionId [event])) r) (.error e)) :
    (append sessionId event).Follows allows next Q a := by
  refine follows_onStore hallowed (fun records => ?_) fun e => herror (.error e) e
  cases records with
  | nil => exact herror (.ok []) _
  | cons record records => exact h.publishAll_then [record] (hok (record :: records) record)

theorem Quiet.spawnWorker (h : Quiet allows next) :
    (spawnWorker sessionId).Follows allows next (fun b _ => b = a) a := by
  refine follows_ask (h.shutdown a true).1 fun shutdown => ?_
  rw [(h.shutdown a shutdown).2]
  cases shutdown with
  | true => exact rfl
  | false => exact ⟨(h.worker a sessionId).1, fun _ => (h.worker a sessionId).2⟩

end Quiet

/-! ## Allowed operations and appending -/

/-- The operations that go along with an append and the start of a worker. -/
def ServerOp.routine : ServerOp → Bool
  | .publish _ | .startWorker _ | .external (.releaseAdmission _) | .external .isShutdown => true
  | _ => false

section Only

variable {allowed : ServerOp → Prop} {α β : Type} {sessionId : String}

theorem only_ask {op : ExternalOp} {f : op.Reply → ServerProgram β} (hop : allowed (.external op))
    (hf : ∀ r, (f r).Only allowed) : (ask op >>= f).Only allowed :=
  ⟨hop, hf⟩

theorem only_onStore {op : StoreOp} {f : op.Result → ServerProgram β} (hop : allowed (.store op))
    (hf : ∀ v, (f v).Only allowed) : (onStore op >>= f).Only allowed :=
  follows_onStore hop hf fun _ => trivial

theorem Quiet.of_routine (h : ∀ op : ServerOp, op.routine = true → allowed op) :
    Quiet (fun (_ : Unit) op => allowed op) fun u _ _ => u where
  publish _ record := ⟨h (.publish record) rfl, rfl⟩
  worker _ sessionId := ⟨h (.startWorker sessionId) rfl, rfl⟩
  release _ runId := ⟨h (.external (.releaseAdmission runId)) rfl, rfl⟩
  shutdown _ _ := ⟨h (.external .isShutdown) rfl, rfl⟩

variable (h : ∀ op : ServerOp, op.routine = true → allowed op)
include h

theorem only_appendMany {events : List SemanticEvent}
    (hop : allowed (.store (.append sessionId events))) :
    (appendMany sessionId events).Only allowed :=
  (Quiet.of_routine h).appendMany hop fun _ => trivial

theorem only_append {event : SemanticEvent} (hop : allowed (.store (.append sessionId [event]))) :
    (append sessionId event).Only allowed :=
  (Quiet.of_routine h).append hop (fun _ _ => trivial) fun _ _ => trivial

theorem only_spawnWorker : (spawnWorker sessionId).Only allowed :=
  (Quiet.of_routine h).spawnWorker.mono fun _ _ _ => trivial

end Only

end Piqo
