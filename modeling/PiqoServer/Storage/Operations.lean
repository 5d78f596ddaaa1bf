import PiqoServer.Storage.Coherence

/-!
# Store operations as programs call them

The supervisor, and the recovery of the store itself, are programs over the operations of
`SqliteStore`. An operation that generates an id or reads the clock for a row takes these as
arguments here; the stamps of appended events come from the handler.

## Main definitions

* `StoreOp`, `StoreOp.Result`, `storeSignature`: the operations and their results
* `StoreOp.perform`: one operation, run to its end
* `recoverRunningSessions`: what the store does first after a restart
-/

namespace Piqo

/-! ## Permission rules and agent links -/

/-- The rank of a scope in `matching_permission_rule`. -/
def PermissionScope.rank : PermissionScope → Nat
  | .session => 3
  | .project => 2
  | .configuration | .once => 1

/-- The condition on a rule in `matching_permission_rule`. -/
def PermissionRuleRecord.applies (rule : PermissionRuleRecord) (sessionId : String)
    (projectId : Option String) (agentId toolName : String) : Bool :=
  rule.agentId = agentId && rule.toolName = toolName &&
    match rule.scope with
    | .session => rule.sessionId = some sessionId
    | .project => rule.projectId.isSome && rule.projectId = projectId
    | .configuration => true
    | .once => false

namespace Database

/-- The rule that decides: session rules before project rules before the configuration's, and
the latest among equals. -/
def matchingPermissionRule (db : Database) (sessionId : String) (projectId : Option String)
    (agentId toolName : String) : Option PermissionRuleRecord :=
  ((db.permissionRules.filter (·.applies sessionId projectId agentId toolName)).mergeSort
    fun a b => b.scope.rank < a.scope.rank ∨
      (b.scope.rank = a.scope.rank ∧ b.createdAt ≤ a.createdAt)).head?

/-- The constraints on a row of `permission_rules`. -/
def ruleInsertable (db : Database) (rule : PermissionRuleRecord) : Bool :=
  db.permissionRules.all (·.id ≠ rule.id) &&
    rule.sessionId.all db.sessions.contains && rule.projectId.all db.projects.contains &&
    match rule.scope with
    | .session => rule.sessionId.isSome && rule.projectId.isNone
    | .project => rule.sessionId.isNone && rule.projectId.isSome
    | .configuration => rule.sessionId.isNone && rule.projectId.isNone
    | .once => false

def createPermissionRule (db : Database) (rule : PermissionRuleRecord) :
    Except StoreError Database :=
  if rule.scope = .once then .error .invalidPermissionScope
  else if db.ruleInsertable rule then
    .ok { db with permissionRules := db.permissionRules ++ [rule] }
  else .error .database

/-- The links of a session, as parent or as child. -/
def agentLinksOf (db : Database) (sessionId : String) : Except StoreError (List AgentLinkRecord) :=
  (db.getSession sessionId).map fun _ =>
    (db.agentLinks.filter fun link =>
        link.parentSessionId = sessionId || link.childSessionId = sessionId).mergeSort
      fun a b => a.createdAt < b.createdAt ∨
        (a.createdAt = b.createdAt ∧ a.instanceId ≤ b.instanceId)

/-- The constraints on a row of `agent_links`. -/
def linkInsertable (db : Database) (link : AgentLinkRecord) : Bool :=
  db.agentLinks.all (fun other => other.instanceId ≠ link.instanceId &&
      other.parentCallId ≠ link.parentCallId && other.childSessionId ≠ link.childSessionId) &&
    db.sessions.contains link.parentSessionId && db.sessions.contains link.childSessionId &&
    decide (1 ≤ link.depth)

def createAgentLink (db : Database) (link : AgentLinkRecord) : Except StoreError Database :=
  if db.linkInsertable link then .ok { db with agentLinks := db.agentLinks ++ [link] }
  else .error (.agentLinkConflict link.parentCallId)

end Database

/-! ## Operations -/

/-- The operations of the store that programs call. -/
inductive StoreOp where
  | runningSessions
  | sessionIds
  | getSession (sessionId : String)
  | getProject (projectId : String)
  | projection (sessionId : String)
  | append (sessionId : String) (events : List SemanticEvent)
  | createSession (id now : String) (title projectId : Option String)
  | matchingPermissionRule (sessionId : String) (projectId : Option String)
      (agentId toolName : String)
  | createPermissionRule (rule : PermissionRuleRecord)
  | agentLinks (sessionId : String)
  | createAgentLink (link : AgentLinkRecord)

/-- What an operation returns when it succeeds. -/
abbrev StoreOp.Result : StoreOp → Type
  | .runningSessions | .sessionIds => List String
  | .getSession _ | .createSession _ _ _ _ => SessionSummary
  | .getProject _ => Project
  | .projection _ => SessionProjection
  | .append _ _ => List RecordedEvent
  | .matchingPermissionRule _ _ _ _ => Option PermissionRuleRecord
  | .createPermissionRule _ => PermissionRuleRecord
  | .agentLinks _ => List AgentLinkRecord
  | .createAgentLink _ => Unit

/-- The store as a signature. -/
def storeSignature : Signature where
  Op := StoreOp
  Reply op := Except StoreError op.Result

/-- An operation run to its end; `now` stamps the appended events. -/
def StoreOp.perform (now : String → Nat → String) :
    (op : StoreOp) → Store → Except StoreError op.Result × Store
  | .runningSessions, store => (.ok store.db.runningSessions, store)
  | .sessionIds, store => (.ok store.db.sessions.keys, store)
  | .getSession sessionId, store => (store.db.getSession sessionId, store)
  | .getProject projectId, store => (store.db.getProject projectId, store)
  | .projection sessionId, store => store.projection sessionId
  | .append sessionId events, store => store.appendEvents sessionId (now sessionId) events
  | .createSession id now title projectId, store =>
    match store.transact (·.createSessionWithRetention id now title projectId .forever) with
    | (.ok (), store) => (store.db.getSession id, store)
    | (.error e, store) => (.error e, store)
  | .matchingPermissionRule sessionId projectId agentId toolName, store =>
    (.ok (store.db.matchingPermissionRule sessionId projectId agentId toolName), store)
  | .createPermissionRule rule, store =>
    match store.transact (·.createPermissionRule rule) with
    | (.ok (), store) => (.ok rule, store)
    | (.error e, store) => (.error e, store)
  | .agentLinks sessionId, store => (store.db.agentLinksOf sessionId, store)
  | .createAgentLink link, store => store.transact (·.createAgentLink link)

/-! ## Recovery -/

/-- A store operation whose error ends the program. -/
def StoreOp.run (op : StoreOp) : Program storeSignature StoreError op.Result :=
  .call op .ofExcept

/-- `append_event`: the record of the single event. -/
def appendEvent (sessionId : String) (event : SemanticEvent) :
    Program storeSignature StoreError RecordedEvent := do
  match ← (StoreOp.append sessionId [event]).run with
  | record :: _ => return record
  | [] => .fail (.corruptSession sessionId "empty append result")

/-- Interrupt one session that was running when the server stopped. -/
def recoverSession (sessionId : String) : Program storeSignature StoreError RecordedEvent := do
  let interrupted ← appendEvent sessionId (.sessionInterrupted "server_restart")
  match (← (StoreOp.projection sessionId).run).activeRun with
  | some run =>
    let _ ← appendEvent sessionId (.runInterrupted run.runId "server_restart")
    return interrupted
  | none => return interrupted

/-- Interrupt the given sessions in turn. -/
def recoverSessions : List String → Program storeSignature StoreError (List RecordedEvent)
  | [] => return []
  | sessionId :: sessionIds => do
    let interrupted ← recoverSession sessionId
    let events ← recoverSessions sessionIds
    return interrupted :: events

def recoverRunningSessions : Program storeSignature StoreError (List RecordedEvent) := do
  recoverSessions (← StoreOp.runningSessions.run)

end Piqo
