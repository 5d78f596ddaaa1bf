import PiqoServer.Core.Replay
import PiqoServer.Library.Program

/-!
# The SQLite store

The tables a session lives in and the operations of `SqliteStore` on them
(`piqo-server/src/storage.rs`). A transaction is a function of the tables: it succeeds with the
tables it commits, or fails and is rolled back. Next to the tables the store keeps a cache of
projections, which `append_events` reads before its transaction and writes after it.

The `type` and `data` columns of an event row are modelled by the event they decode to, which is
the stored event up to `SemanticEvent.reload`. Event ids and revisions stay below `2 ^ 63`; only
an id that a caller supplies is checked against that bound. Readings of the clock are arguments.

## Main definitions

* `StoreError`: the errors of the store and of the supervisor above it
* `SessionSummary`, `EventRow`, `StoredSession`, `Database`: rows and tables
* `project`: the projection of a session's recorded events
* `StoredSession.append`: the transaction of `append_events` on one session
* `Store`: the tables and the projection cache
* `Store.createSessionWithRetention`, `appendEvents`, `forkSession`, `updateSessionRetention`,
  `projection`, `validateAll`: the operations
-/

namespace Piqo

def eventSchemaVersion : Nat := 1

/-- `i64::MAX`, the largest id that can be bound to a query. -/
def i64Max : Nat := 2 ^ 63 - 1

/-- `u32::MAX`, the limit that stands for no limit. -/
def u32Max : Nat := 2 ^ 32 - 1

inductive HistoryRetention where
  | forever | oneYear | sixMonths | threeMonths | oneMonth
  deriving DecidableEq, Repr

/-- Errors, with what the code reads of them; the text of an underlying error is not kept. -/
inductive StoreError where
  | database
  | json
  | sessionNotFound (sessionId : String)
  | projectNotFound (projectId : String)
  | eventNotFound (sessionId : String) (eventId : Nat)
  | unsupportedSchemaVersion (version : Nat)
  | corruptSession (sessionId reason : String)
  | invalidTransition (error : ProjectionError)
  | invalidCursor
  | invalidRequest (message : String)
  | conflict (message : String)
  | runNotFound (runId : String)
  | toolCallNotFound (callId : String)
  | toolCallWrongRun (callId runId : String)
  | toolResultConflict (callId : String)
  | callerOwnedTranscript
  | nativeToolManaged (callId : String)
  | mcpToolManaged (callId : String)
  | queuePaused
  | queueNotPaused
  | providerNotFound (provider : String)
  | providerUnavailable (message : String)
  | providerProtocolError (message : String)
  | shuttingDown
  | runCapacityExceeded
  | invalidPermissionScope
  | agentLinkConflict (callId : String)
  | projectDeleting (projectId : String)
  /-- Not an error of the source: the task panicked, and unwinds. -/
  | panicked
  /-- Not an error of the source: a loop did not end within its fuel. -/
  | diverged
  deriving DecidableEq, Repr

/-! ## Tables -/

/-- A row of `sessions`. -/
structure SessionSummary where
  id : String
  title : Option String
  projectId : Option String
  parentSessionId : Option String
  forkedAtEventId : Option Nat
  createdAt : String
  updatedAt : String
  phase : SessionPhase
  revision : Nat
  lastEventId : Nat
  historyRetention : HistoryRetention
  deriving DecidableEq, Repr

/-- A row of `events` under its event id, with the event its columns decode to. -/
structure EventRow where
  schemaVersion : Nat
  event : SemanticEvent
  occurredAt : String
  decoded : event.reload = event
  deriving DecidableEq

/-- The rows of one session. -/
structure StoredSession where
  summary : SessionSummary
  events : SortedMap Nat EventRow
  deriving DecidableEq

structure Project where
  id : String
  name : String
  path : String
  deriving DecidableEq, Repr

structure PermissionRuleRecord where
  id : String
  scope : PermissionScope
  sessionId : Option String
  projectId : Option String
  agentId : String
  toolName : String
  createdAt : String
  deriving DecidableEq, Repr

structure AgentLinkRecord where
  instanceId : String
  profileId : String
  parentSessionId : String
  parentRunId : String
  parentCallId : String
  childSessionId : String
  childRunId : String
  depth : Nat
  budget : AgentBudget
  permissionCeiling : Json
  createdAt : String
  deriving DecidableEq

/-- The tables. -/
structure Database where
  projects : SortedMap String Project
  sessions : SortedMap String StoredSession
  permissionRules : List PermissionRuleRecord
  agentLinks : List AgentLinkRecord
  deriving DecidableEq

/-! ## Reading a log -/

def recordedFromRow (sessionId : String) (row : Nat × EventRow) :
    Except StoreError RecordedEvent :=
  if row.2.schemaVersion ≠ eventSchemaVersion then
    .error (.unsupportedSchemaVersion row.2.schemaVersion)
  else .ok {
    id := row.1, sessionId, schemaVersion := row.2.schemaVersion
    occurredAt := row.2.occurredAt, event := row.2.event }

/-- The recorded events of some rows. -/
def recordedFromRows (sessionId : String) :
    List (Nat × EventRow) → Except StoreError (List RecordedEvent)
  | [] => .ok []
  | row :: rows =>
    (recordedFromRow sessionId row).bind fun event =>
      (recordedFromRows sessionId rows).map (event :: ·)

/-- Fold events onto a projection, expecting consecutive ids from `expected` on. -/
def replayFrom (sessionId : String) :
    Nat → SessionProjection → List RecordedEvent → Except StoreError SessionProjection
  | _, p, [] => .ok p
  | expected, p, event :: events =>
    if event.id ≠ expected ∨ event.schemaVersion ≠ eventSchemaVersion then
      .error (.corruptSession sessionId
        ("non-contiguous or unsupported event " ++ toString event.id))
    else ((p.apply event.id event.event).mapError .invalidTransition).bind fun p =>
      replayFrom sessionId (expected + 1) p events

def project (sessionId : String) (events : List RecordedEvent) :
    Except StoreError SessionProjection :=
  (replayFrom sessionId 1 (.new sessionId) events).bind fun p =>
    if events = [] then .error (.corruptSession sessionId "session has no creation event")
    else .ok p

namespace StoredSession

/-- The recorded events of a session. -/
def recorded (s : StoredSession) (sessionId : String) : Except StoreError (List RecordedEvent) :=
  recordedFromRows sessionId s.events.entries

/-- The projection of a session's log. -/
def projected (s : StoredSession) (sessionId : String) : Except StoreError SessionProjection :=
  (s.recorded sessionId).bind (project sessionId)

/-- The events after `after`, as rows. -/
def eventsAfter (s : StoredSession) (after : Nat) : List (Nat × EventRow) :=
  s.events.entries.filter fun row => after < row.1

/-- The events after `after`; the limit `u32::MAX` reads them all. -/
def readEvents (s : StoredSession) (sessionId : String) (after limit : Nat) :
    Except StoreError (List RecordedEvent) :=
  if i64Max < after then .error .invalidCursor
  else recordedFromRows sessionId
    (if limit = u32Max then s.eventsAfter after
    else (s.eventsAfter after).take (max 1 (min limit 200)))

/-! ## Appending -/

/-- The primary key of `events`, and the trigger on its ids. -/
def insertEventRow (s : StoredSession) (eventId : Nat) (occurredAt : String)
    (event : SemanticEvent) : Except StoreError StoredSession :=
  if eventId = 0 ∨ s.events.contains eventId then .error .database
  else .ok { s with
    events := s.events.insert eventId
      { schemaVersion := eventSchemaVersion, event := event.reload, occurredAt
        decoded := event.reload_reload } }

/-- One event of `append_events`: allocate its id from the row, apply it to the projection, store
it, and write the projected phase and revision back to the row. -/
def appendOne (s : StoredSession) (sessionId : String) (now : Nat → String)
    (p : SessionProjection) (event : SemanticEvent) :
    Except StoreError (StoredSession × SessionProjection × RecordedEvent) :=
  let eventId := s.summary.lastEventId + 1
  let s := { s with summary := { s.summary with lastEventId := eventId } }
  ((p.apply eventId event).mapError .invalidTransition).bind fun p =>
    (s.insertEventRow eventId (now eventId) event).bind fun s =>
      .ok ({ s with summary := { s.summary with
              phase := p.state.phase, revision := p.state.revision, updatedAt := now eventId } },
        p, { id := eventId, sessionId, schemaVersion := eventSchemaVersion
             occurredAt := now eventId, event })

/-- The loop of `append_events`. -/
def appendAll (sessionId : String) (now : Nat → String) :
    StoredSession → SessionProjection → List SemanticEvent →
      Except StoreError (StoredSession × SessionProjection × List RecordedEvent)
  | s, p, [] => .ok (s, p, [])
  | s, p, event :: events =>
    (s.appendOne sessionId now p event).bind fun (s, p, record) =>
      (appendAll sessionId now s p events).map fun (s, p, records) => (s, p, record :: records)

/-- The projection `append_events` starts from: the cached one, or the log's. -/
def baseProjection (s : StoredSession) (sessionId : String) :
    Option SessionProjection → Except StoreError SessionProjection
  | some p => .ok p
  | none => s.projected sessionId

/-- The transaction of `append_events`, given what the cache held before it. -/
def append (s : StoredSession) (sessionId : String) (now : Nat → String)
    (cached : Option SessionProjection) (events : List SemanticEvent) :
    Except StoreError (StoredSession × SessionProjection × List RecordedEvent) :=
  (s.baseProjection sessionId cached).bind fun p => appendAll sessionId now s p events

/-- The branch events of a fork: ids continue from `nextId`. -/
def appendBranch (createdAt : String) :
    StoredSession → SessionProjection → Nat → List SemanticEvent →
      Except StoreError StoredSession
  | s, _, _, [] => .ok s
  | s, p, nextId, event :: events =>
    ((p.apply nextId event).mapError .invalidTransition).bind fun p =>
      (s.insertEventRow nextId createdAt event).bind fun s =>
        appendBranch createdAt
          { s with summary := { s.summary with
            phase := p.state.phase, revision := p.state.revision, lastEventId := nextId
            updatedAt := createdAt } }
          p (nextId + 1) events

end StoredSession

/-! ## Transactions on the tables -/

namespace Database

/-- A database without sessions. -/
def empty (projects : SortedMap String Project) : Database :=
  { projects, sessions := ∅, permissionRules := [], agentLinks := [] }

def getSession (db : Database) (sessionId : String) : Except StoreError SessionSummary :=
  match db.sessions.get? sessionId with
  | some s => .ok s.summary
  | none => .error (.sessionNotFound sessionId)

def getProject (db : Database) (projectId : String) : Except StoreError Project :=
  match db.projects.get? projectId with
  | some project => .ok project
  | none => .error (.projectNotFound projectId)

/-- Insert the rows of a new session; its id is the primary key of `sessions`. -/
def insertSession (db : Database) (id : String) (rows : Except StoreError StoredSession) :
    Except StoreError Database :=
  if db.sessions.contains id then .error .database
  else rows.map fun s => { db with sessions := db.sessions.insert id s }

def ensureProject (db : Database) : Option String → Except StoreError Unit
  | some projectId => (db.getProject projectId).map fun _ => ()
  | none => .ok ()

def createSessionWithRetention (db : Database) (id now : String) (title projectId : Option String)
    (historyRetention : HistoryRetention) : Except StoreError Database :=
  (db.ensureProject projectId).bind fun _ =>
    db.insertSession id (StoredSession.insertEventRow
      { summary := {
          id, title, projectId, parentSessionId := none, forkedAtEventId := none
          createdAt := now, updatedAt := now, phase := .created, revision := 0, lastEventId := 1
          historyRetention }
        events := ∅ } 1 now (.sessionCreated title))

/-- The transaction of `append_events`. Without a cached projection a missing session has no
events to project; with one it has no row to update. -/
def appendEvents (db : Database) (sessionId : String) (now : Nat → String)
    (cached : Option SessionProjection) (events : List SemanticEvent) :
    Except StoreError (Database × SessionProjection × List RecordedEvent) :=
  match db.sessions.get? sessionId, cached with
  | some s, cached =>
    (s.append sessionId now cached events).map fun (s, p, records) =>
      ({ db with sessions := db.sessions.insert sessionId s }, p, records)
  | none, some _ => .error (.sessionNotFound sessionId)
  | none, none => .error (.corruptSession sessionId "session has no creation event")

/-- The events that open a fork: the active run of the copied prefix does not continue. -/
def branchEvents (parentSessionId : String) (atEventId : Nat) (p : SessionProjection) :
    List SemanticEvent :=
  [.sessionForked parentSessionId atEventId] ++
    (match p.activeRun with
      | some run => [.runInterrupted run.runId "forked_branch"]
      | none => []) ++ [.queuePaused]

def forkSession (db : Database) (id createdAt parentSessionId : String) (atEventId : Nat)
    (title : Option String) : Except StoreError Database :=
  match db.sessions.get? parentSessionId with
  | none => .error (.sessionNotFound parentSessionId)
  | some parent =>
    if i64Max < atEventId then .error .invalidCursor
    else
      let rows := parent.events.entries.filter fun row => row.1 ≤ atEventId
      if (rows.getLast?.map Prod.fst) ≠ some atEventId then
        .error (.eventNotFound parentSessionId atEventId)
      else
        (recordedFromRows parentSessionId rows).bind fun events =>
          (project parentSessionId events).bind fun p =>
            db.insertSession id (StoredSession.appendBranch createdAt
              { summary := {
                  id, title, projectId := parent.summary.projectId
                  parentSessionId := some parentSessionId, forkedAtEventId := some atEventId
                  createdAt, updatedAt := createdAt, phase := p.state.phase
                  revision := p.state.revision, lastEventId := atEventId
                  historyRetention := .forever }
                events := ⟨rows, parent.events.sorted.filter _⟩ }
              p (atEventId + 1) (branchEvents parentSessionId atEventId p))

def updateSessionRetention (db : Database) (sessionId : String)
    (historyRetention : HistoryRetention) : Except StoreError Database :=
  match db.sessions.get? sessionId with
  | none => .error (.sessionNotFound sessionId)
  | some s => .ok { db with
      sessions := db.sessions.insert sessionId
        { s with summary := { s.summary with historyRetention } } }

/-- The events of a session after `after`. -/
def events (db : Database) (sessionId : String) (after : Nat) (limit : Nat) :
    Except StoreError (List RecordedEvent) :=
  match db.sessions.get? sessionId with
  | none => .error (.sessionNotFound sessionId)
  | some s => s.readEvents sessionId after limit

/-- The sessions whose row says they are running. -/
def runningSessions (db : Database) : List String :=
  (db.sessions.entries.filter fun e => e.2.summary.phase = .running).map Prod.fst

/-! ## Validation -/

/-- A row agrees with the projection of its log. -/
def matchesRow (summary : SessionSummary) (p : SessionProjection) : Bool :=
  p.state.phase = summary.phase && p.state.revision = summary.revision &&
    p.state.lastEventId.getD 0 = summary.lastEventId

/-- The check of one session when the store opens. -/
def validateSession (sessionId : String) (s : StoredSession) : Except StoreError Unit :=
  (s.projected sessionId).bind fun p =>
    if matchesRow s.summary p then .ok ()
    else .error (.corruptSession sessionId "projection cache does not match event log")

/-- The check of every session when the store opens. -/
def validateAll (db : Database) : Except StoreError Unit :=
  db.sessions.entries.foldlM (fun _ e => validateSession e.1 e.2) ()

end Database

/-! ## The store -/

/-- The tables with the projection cache. -/
structure Store where
  db : Database
  projectionCache : SortedMap String SessionProjection
  deriving DecidableEq

namespace Store

/-- A store that has just been opened. -/
def ofDatabase (db : Database) : Store := { db, projectionCache := ∅ }

/-- A transaction that does not touch the cache. -/
def transact (store : Store) (tx : Database → Except StoreError Database) :
    Except StoreError Unit × Store :=
  match tx store.db with
  | .ok db => (.ok (), { store with db })
  | .error e => (.error e, store)

def appendEvents (store : Store) (sessionId : String) (now : Nat → String)
    (events : List SemanticEvent) : Except StoreError (List RecordedEvent) × Store :=
  if events = [] then (.ok [], store)
  else
    let cached := store.projectionCache.get? sessionId
    match store.db.appendEvents sessionId now cached events with
    | .ok (db, p, records) =>
      (.ok records, { db, projectionCache := store.projectionCache.insert sessionId p })
    | .error e => (.error e, store)

def projection (store : Store) (sessionId : String) :
    Except StoreError SessionProjection × Store :=
  match store.projectionCache.get? sessionId with
  | some p => (.ok p, store)
  | none =>
    match (store.db.events sessionId 0 u32Max).bind (project sessionId) with
    | .ok p => (.ok p, { store with projectionCache := store.projectionCache.insert sessionId p })
    | .error e => (.error e, store)

end Store

end Piqo
