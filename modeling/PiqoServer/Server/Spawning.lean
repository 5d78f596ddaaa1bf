import PiqoServer.Server.DelegationForest
import PiqoServer.Server.Runs

/-!
# The steps of a delegation

`spawn_delegated_child` (`piqo-server/src/supervisor.rs`) checks the call, and creates the child
session, its link and the events of both sessions, each of them on its own. Any of the steps may
fail, and what was written before stays.

## Main definitions

* `checkDelegation`, `createChild`, `linkChild`: the steps up to the link
* `SpawnStep`, `World.handleFailing`: a store in which steps of a delegation fail
* `Checked`: what the checks of a delegation ask for
* `Surroundings.Fresh`: ids that are not in use

## Main results

* `admitDelegatedChild_eq`: an admission is its three steps
* `checkDelegation_eq_ok_iff`: when the checks let a delegation through
* `createChild_cases`, `linkChild_cases`, `startDelegatedChild_cases`: what the later steps leave
-/

namespace Piqo

/-! ## The steps -/

/-- A delegation that has passed the checks. -/
structure Plan where
  request : DelegationRequest
  limits : OrchestrationConfig
  provider : String
  model : String
  parentDepth : Nat
  ceiling : Json
  references : List DelegatedContextRef
  copied : Json
  projectId : Option String

/-- The checks of a delegation. -/
def checkDelegation (parentSessionId parentRunId : String) (arguments : Json) :
    ServerProgram Plan := do
  let request ← expect
    (.invalidRequest "delegate requires agent, task, and context_message_ids")
    (DelegationRequest.ofJson? arguments)
  let config ← snapshot
  let child ← .ofExcept ((config.agent request.agent).mapError .invalidRequest)
  let provider ← expect (.invalidRequest "delegated agent must configure a provider") child.provider
  let model ← expect (.invalidRequest "delegated agent must configure a model") child.model
  let _ ← resolveProvider provider
  let limits := config.orchestration
  let parentDepth :=
    ((childLink parentSessionId (← onStore (.agentLinks parentSessionId))).map (·.depth)).getD 0
  if limits.maxDepth ≤ parentDepth then
    .fail (.invalidRequest "delegated agent depth limit exceeded")
  if limits.maxContextMessageIds < request.contextMessageIds.length then
    .fail (.invalidRequest "delegated context has too many messages")
  let (parentProjection, parentRun) ← loadRun parentSessionId parentRunId
  let parentRequest ← expect .json (RunRequest.ofJson? parentRun.request)
  let ceiling := (permissionCeiling config parentRequest).toJson
  let messages ← .ofExcept (selectMessages parentProjection.messages request.contextMessageIds)
  let references := messages.map fun message =>
    { sourceSessionId := parentSessionId, messageId := message.messageId
      lastEventId := message.lastEventId }
  let copied := Json.arr (messages.map copiedMessage)
  if limits.maxContextBytes < copied.size then
    .fail (.invalidRequest "delegated context exceeds the byte limit")
  let parentSession ← onStore (.getSession parentSessionId)
  return {
    request, limits, provider, model, parentDepth, ceiling, references, copied
    projectId := parentSession.projectId }

/-- The creation of the child session. -/
def createChild (plan : Plan) : ServerProgram SessionSummary := do
  onStore (.createSession (← ask .newUuid) (← ask .readClock)
    (some ("Delegated: " ++ plan.request.agent)) plan.projectId)

/-- The link of the child. -/
def linkChild (parentSessionId parentRunId parentCallId : String) (plan : Plan)
    (childSession : SessionSummary) : ServerProgram Delegation := do
  let instanceId ← ask .newUuid
  let childRunId ← ask .newUuid
  let budget : AgentBudget := {
    maxModelTurns := plan.limits.maxChildModelTurns
    maxDurationSeconds := plan.limits.maxChildDurationSeconds
    maxTreeDurationSeconds := plan.limits.maxTreeDurationSeconds
    maxTreeTokens := plan.limits.maxTreeTokens
    maxContextBytes := plan.limits.maxContextBytes
    maxResultBytes := plan.limits.maxResultBytes }
  let link : AgentLink := {
    instanceId, profileId := plan.request.agent, parentSessionId, parentRunId, parentCallId
    childSessionId := childSession.id, childRunId
    depth := min (plan.parentDepth + 1) 255, budget, permissionCeiling := plan.ceiling }
  onStore (.createAgentLink {
    instanceId, profileId := plan.request.agent, parentSessionId, parentRunId, parentCallId
    childSessionId := childSession.id, childRunId, depth := link.depth, budget
    permissionCeiling := plan.ceiling, createdAt := ← ask .readClock })
  return {
    link, task := plan.request.task, provider := plan.provider, model := plan.model
    references := plan.references, copied := plan.copied }

theorem ite_fail_bind {α β : Type} (c : Prop) [Decidable c] (e : StoreError)
    (p : ServerProgram α) (f : α → ServerProgram β) :
    (if c then .fail e else p) >>= f = if c then .fail e else p >>= f := by
  split <;> rfl

/-- An admission is the checks, the creation of the session, and the link. -/
theorem admitDelegatedChild_eq (parentSessionId parentRunId parentCallId : String)
    (arguments : Json) :
    admitDelegatedChild parentSessionId parentRunId parentCallId arguments =
      checkDelegation parentSessionId parentRunId arguments >>= fun plan =>
        createChild plan >>= linkChild parentSessionId parentRunId parentCallId plan := by
  unfold admitDelegatedChild checkDelegation createChild linkChild
  simp only [Program.bind_assoc, Program.fail_bind, ite_fail_bind, Program.pure_eq,
    Program.ret_bind]

/-! ## Steps that fail -/

/-- The steps of a delegation in the store. The session that was created is read again. -/
inductive SpawnStep where
  | readLinks | readParent | readSession | createSession | readCreated | createLink | recordParent
  | recordChild | readChild | queueRun
  deriving DecidableEq

/-- The step that an operation of a delegation is. -/
def StoreOp.spawnStep (parentSessionId : String) : StoreOp → Option SpawnStep
  | .agentLinks _ => some .readLinks
  | .projection sessionId => some (if sessionId = parentSessionId then .readParent else .readChild)
  | .getSession _ => some .readSession
  | .createSession _ _ _ _ => some .createSession
  | .createAgentLink _ => some .createLink
  | .append sessionId (.agentSpawned _ _ _ _ :: _) =>
    some (if sessionId = parentSessionId then .recordParent else .recordChild)
  | .append _ _ => some .queueRun
  | _ => none

/-- Whether what was written is read again. -/
def StoreOp.rereads : StoreOp → Bool
  | .createSession _ _ _ _ => true
  | _ => false

/-- The operations of a delegation, some of whose steps fail in the database. -/
def World.handleFailing (env : Surroundings) (parentSessionId : String) (fails : SpawnStep → Bool) :
    (op : ServerOp) → World → op.Reply × World
  | .store op, w =>
    if (op.spawnStep parentSessionId).any fails then (.error .database, w.tick)
    else if op.rereads && fails .readCreated then
      let reply : Except StoreError op.Result := (World.handle env (.store op) w).1
      (reply.bind fun _ => .error .database, (World.handle env (.store op) w).2)
    else World.handle env (.store op) w
  | .publish record, w => World.handle env (.publish record) w
  | .startWorker sessionId, w => World.handle env (.startWorker sessionId) w
  | .external op, w => World.handle env (.external op) w

section Failing

variable {env : Surroundings} {parentSessionId : String} {fails : SpawnStep → Bool} {w w' : World}
  {α β : Type}

/-- Where no step fails, this is the store as it is. -/
theorem World.handleFailing_none :
    World.handleFailing env parentSessionId (fun _ => false) = World.handle env := by
  funext op w
  cases op with
  | store op =>
    have hnone : (op.spawnStep parentSessionId).any (fun _ => false) = false := by
      cases op.spawnStep parentSessionId <;> rfl
    rw [World.handleFailing, hnone, if_neg Bool.false_ne_true, Bool.and_false,
      if_neg Bool.false_ne_true]
  | publish record => rfl
  | startWorker sessionId => rfl
  | external op => rfl

theorem ask_failing (op : ExternalOp) (w : World) :
    (ask op).run (World.handleFailing env parentSessionId fails) w =
      (.ok (env.answer w.clock op), w.tick) := rfl

/-- An operation whose step does not fail. -/
theorem onStore_working {op : StoreOp} (hstep : (op.spawnStep parentSessionId).any fails = false)
    (hreread : (op.rereads && fails .readCreated) = false) (w : World) :
    (onStore op).run (World.handleFailing env parentSessionId fails) w =
      World.handle env (.store op) w := by
  rw [onStore, Program.run_call, Program.run_ofExcept, World.handleFailing, hstep,
    if_neg Bool.false_ne_true, hreread, if_neg Bool.false_ne_true]

/-- An operation whose step fails. -/
theorem onStore_failing {op : StoreOp} (hstep : (op.spawnStep parentSessionId).any fails = true)
    (w : World) :
    (onStore op).run (World.handleFailing env parentSessionId fails) w =
      (.error .database, w.tick) := by
  rw [onStore, Program.run_call, Program.run_ofExcept, World.handleFailing, if_pos hstep]

theorem onStore_eq_ok {op : StoreOp} {v : op.Result} :
    (onStore op).run (World.handleFailing env parentSessionId fails) w = (.ok v, w') ↔
      ((op.spawnStep parentSessionId).any fails = false ∧
        (op.rereads && fails .readCreated) = false) ∧
      World.handle env (.store op) w = (.ok v, w') := by
  cases hstep : (op.spawnStep parentSessionId).any fails with
  | true =>
    rw [onStore_failing hstep]
    refine iff_of_false (fun h => ?_) fun h => ?_
    · cases h
    · cases h.1.1
  | false =>
    cases hreread : (op.rereads && fails .readCreated) with
    | false => rw [onStore_working hstep hreread, and_iff_right ⟨rfl, rfl⟩]
    | true =>
      rw [onStore, Program.run_call, Program.run_ofExcept, World.handleFailing, hstep,
        if_neg Bool.false_ne_true, hreread, if_pos rfl]
      refine iff_of_false (fun h => ?_) fun h => ?_
      · generalize (World.handle env (.store op) w).1 = reply at h
        cases reply with
        | error e => cases h
        | ok v => cases h
      · cases h.1.2

/-- Nothing that is published fails. -/
theorem publishAll_failing (records : List RecordedEvent) (w : World) :
    (publishAll records).run (World.handleFailing env parentSessionId fails) w =
      (publishAll records).run (World.handle env) w := by
  refine (Program.run_congr _ fun c hc => ?_)
  have hannounces := publishAll_calls env hc
  obtain ⟨w', op⟩ := c
  cases op with
  | store op => cases hannounces
  | publish record => rfl
  | startWorker sessionId => cases hannounces
  | external op => rfl

/-- An operation that does not fail, before something of which nothing fails. -/
theorem onStore_bind_working {op : StoreOp} {f : op.Result → ServerProgram α}
    (hf : ∀ v w, (f v).run (World.handleFailing env parentSessionId fails) w =
      (f v).run (World.handle env) w)
    (hstep : (op.spawnStep parentSessionId).any fails = false)
    (hreread : (op.rereads && fails .readCreated) = false) (w : World) :
    (onStore op >>= f).run (World.handleFailing env parentSessionId fails) w =
      (onStore op >>= f).run (World.handle env) w := by
  rw [Program.run_bind, Program.run_bind, onStore_working hstep hreread, onStore_run]
  cases World.handle env (.store op) w with
  | mk result w₁ =>
    cases result with
    | error e => rfl
    | ok v => exact hf v w₁

theorem appendMany_working {sessionId : String} {events : List SemanticEvent}
    (hstep : ((StoreOp.append sessionId events).spawnStep parentSessionId).any fails = false)
    (w : World) :
    (appendMany sessionId events).run (World.handleFailing env parentSessionId fails) w =
      (appendMany sessionId events).run (World.handle env) w := by
  refine onStore_bind_working (fun records w => ?_) hstep rfl w
  rw [Program.run_bind, Program.run_bind, publishAll_failing]
  rfl

theorem appendMany_failing {sessionId : String} {events : List SemanticEvent}
    (hstep : ((StoreOp.append sessionId events).spawnStep parentSessionId).any fails = true)
    (w : World) :
    (appendMany sessionId events).run (World.handleFailing env parentSessionId fails) w =
      (.error .database, w.tick) := by
  rw [appendMany, Program.run_bind_error _ (onStore_failing hstep w)]

theorem append_working {sessionId : String} {event : SemanticEvent}
    (hstep : ((StoreOp.append sessionId [event]).spawnStep parentSessionId).any fails = false)
    (w : World) :
    (append sessionId event).run (World.handleFailing env parentSessionId fails) w =
      (append sessionId event).run (World.handle env) w := by
  refine onStore_bind_working (fun records w => ?_) hstep rfl w
  cases records with
  | nil => rfl
  | cons record records =>
    show (publishAll [record] >>= fun _ => pure record).run _ w =
      (publishAll [record] >>= fun _ => pure record).run _ w
    rw [Program.run_bind, Program.run_bind, publishAll_failing]
    rfl

theorem append_failing {sessionId : String} {event : SemanticEvent}
    (hstep : ((StoreOp.append sessionId [event]).spawnStep parentSessionId).any fails = true)
    (w : World) :
    (append sessionId event).run (World.handleFailing env parentSessionId fails) w =
      (.error .database, w.tick) := by
  rw [append, Program.run_bind_error _ (onStore_failing hstep w)]

theorem World.clock_failing (op : ServerOp) (w : World) :
    (World.handleFailing env parentSessionId fails op w).2.clock = w.clock + 1 := by
  cases op with
  | publish record => rfl
  | startWorker sessionId => rfl
  | external op => rfl
  | store op =>
    rw [World.handleFailing]
    split
    · rfl
    · split
      · rfl
      · rfl

theorem World.clock_run_failing (env : Surroundings) (parentSessionId : String)
    (fails : SpawnStep → Bool) (program : ServerProgram α) (w : World) :
    w.clock ≤ (program.run (World.handleFailing env parentSessionId fails) w).2.clock :=
  Program.run_preserves (I := fun w' => w.clock ≤ w'.clock) _
    (fun op v h => (h.trans (Nat.le_succ _)).trans (World.clock_failing op v).ge) program le_rfl

/-- Whatever fails, the sessions stay. -/
theorem World.contains_run_failing (program : ServerProgram α) {id : String}
    (h : w.store.db.sessions.contains id = true) :
    (program.run (World.handleFailing env parentSessionId fails)
      w).2.store.db.sessions.contains id = true := by
  refine Program.run_preserves (I := fun w : World => w.store.db.sessions.contains id = true) _
    (fun op v hv => ?_) program h
  have hhandle := World.contains_handle env op hv
  cases op with
  | publish record => exact hhandle
  | startWorker sessionId => exact hhandle
  | external op => exact hhandle
  | store op =>
    rw [World.handleFailing]
    split
    · exact hv
    · split
      · exact hhandle
      · exact hhandle

end Failing

/-! ## The child session -/

/-- A projection of which nothing has been told yet. -/
structure SessionProjection.Blank (p : SessionProjection) : Prop where
  agents : p.agents = ∅
  instances : p.agentInstances = ∅
  messages : p.messages = []
  runs : p.runs = ∅

/-- The row of a created session. -/
def newRow (id now : String) (title projectId : Option String) : StoredSession where
  summary := {
    id, title, projectId, parentSessionId := none, forkedAtEventId := none
    createdAt := now, updatedAt := now, phase := .created, revision := 0, lastEventId := 1
    historyRetention := .forever }
  events := (∅ : SortedMap Nat EventRow).insert 1
    { schemaVersion := eventSchemaVersion, event := (SemanticEvent.sessionCreated title).reload
      occurredAt := now, decoded := (SemanticEvent.sessionCreated title).reload_reload }

/-- A session is created where its id is not in use and its project is there. -/
theorem Store.createSession_eq (store : Store) (id now : String) (title projectId : Option String) :
    store.transact (·.createSessionWithRetention id now title projectId .forever) =
      match store.db.ensureProject projectId with
      | .error e => (.error e, store)
      | .ok _ => if store.db.sessions.contains id then (.error .database, store)
        else (.ok (), { store with db := { store.db with
          sessions := store.db.sessions.insert id (newRow id now title projectId) } }) := by
  have hcreate : store.db.createSessionWithRetention id now title projectId .forever =
      (store.db.ensureProject projectId).bind fun _ =>
        if store.db.sessions.contains id then .error .database
        else .ok { store.db with
          sessions := store.db.sessions.insert id (newRow id now title projectId) } := rfl
  rw [Store.transact, hcreate]
  cases store.db.ensureProject projectId with
  | error e => rfl
  | ok u =>
    dsimp only [Except.bind]
    by_cases hid : store.db.sessions.contains id = true
    · rw [if_pos hid, if_pos hid]
    · rw [if_neg hid, if_neg hid]

/-- What a created session shows. -/
def newProjection (id : String) : SessionProjection :=
  { SessionProjection.new id with state := { SessionState.new id with lastEventId := some 1 } }

theorem newProjection_blank (id : String) : (newProjection id).Blank := ⟨rfl, rfl, rfl, rfl⟩

theorem Store.Sound.view_newRow {store : Store} (h : store.Sound) {id now : String}
    {title projectId : Option String} (hid : store.db.sessions.contains id = false) :
    ({ store with db := { store.db with
      sessions := store.db.sessions.insert id (newRow id now title projectId) } } : Store).view id =
        some (newProjection id) := by
  have hcache : store.projectionCache.get? id = none := by
    cases hcached : store.projectionCache.get? id with
    | none => rfl
    | some p =>
      -- nothing is cached of a session that does not exist
      obtain ⟨s, hs, -⟩ := h.cached hcached
      simp [SortedMap.contains, hs] at hid
  rw [Store.view, hcache]
  dsimp only
  rw [SortedMap.get?_insert_self]
  rfl

section Opening

variable {env : Surroundings} {w w' : World}

/-- What the creation of a session leaves: the session, with nothing told, beside what was there. -/
structure World.Adds (w w' : World) (id : String) : Prop where
  new : w.store.db.sessions.contains id = false
  sound : w.Sound → w'.Sound
  present : ∀ id', w'.store.db.sessions.contains id' = true ↔
    w.store.db.sessions.contains id' = true ∨ id' = id
  row : ∀ id', id' ≠ id → w'.store.db.sessions.get? id' = w.store.db.sessions.get? id'
  projects : w'.store.db.projects = w.store.db.projects
  links : w'.store.db.agentLinks = w.store.db.agentLinks
  view : w.Sound → ∀ id', id' ≠ id → w'.view id' = w.view id'
  blank : w.Sound → ∃ p : SessionProjection, p.Blank ∧ w'.view id = some p

/-- The world with a new session. -/
def World.created (w : World) (id now : String) (title projectId : Option String) : World :=
  { w with
    store := { w.store with db := { w.store.db with
      sessions := w.store.db.sessions.insert id (newRow id now title projectId) } }
    clock := w.clock + 1 }

theorem World.adds_created {id : String} (now : String) (title : Option String)
    {projectId : Option String} (hproject : w.store.db.ensureProject projectId = .ok ())
    (hid : w.store.db.sessions.contains id = false) :
    w.Adds (w.created id now title projectId) id where
  new := hid
  sound hw := by
    refine Store.Sound.createSession hw id now title projectId .forever ?_
    rw [Database.createSessionWithRetention, hproject, Except.bind, Database.insertSession, hid]
    rfl
  present id' := by
    rw [SortedMap.contains_iff, SortedMap.contains_iff]
    by_cases hid' : id' = id
    · refine iff_of_true ⟨newRow id now title projectId, ?_⟩ (.inr hid')
      rw [hid']
      exact SortedMap.get?_insert_self _ _ _
    · rw [or_iff_left hid']
      refine exists_congr fun s => ?_
      rw [World.created]
      dsimp only
      rw [SortedMap.get?_insert_of_ne _ _ hid']
  row id' hne := SortedMap.get?_insert_of_ne _ _ hne
  projects := rfl
  links := rfl
  view _ id' hne := by
    rw [World.view, World.view, Store.view, Store.view, World.created]
    dsimp only
    rw [SortedMap.get?_insert_of_ne _ _ hne]
  blank hw := ⟨newProjection id, newProjection_blank id, Store.Sound.view_newRow hw hid⟩

theorem handle_createSession {id now : String} {title projectId : Option String}
    (hproject : w.store.db.ensureProject projectId = .ok ())
    (hid : w.store.db.sessions.contains id = false) :
    World.handle env (.store (.createSession id now title projectId)) w =
      (.ok (newRow id now title projectId).summary, w.created id now title projectId) := by
  have hcreate : w.store.transact (·.createSessionWithRetention id now title projectId .forever) =
      (.ok (), { w.store with db := { w.store.db with
        sessions := w.store.db.sessions.insert id (newRow id now title projectId) } }) := by
    rw [Store.createSession_eq, hproject]
    dsimp only
    rw [hid, if_neg Bool.false_ne_true]
  have hget : (w.created id now title projectId).store.db.getSession id =
      .ok (newRow id now title projectId).summary := by
    rw [Database.getSession, World.created]
    dsimp only
    rw [SortedMap.get?_insert_self]
  rw [World.handle, StoreOp.perform, hcreate]
  exact congrArg (·, w.created id now title projectId) hget

/-- Where the id is in use, or the project is not there, nothing is created. -/
theorem handle_createSession_refused (env : Surroundings) {id : String} (now : String)
    (title : Option String) {projectId : Option String}
    (h : ¬ (w.store.db.ensureProject projectId = .ok () ∧
      w.store.db.sessions.contains id = false)) :
    ∃ e, World.handle env (.store (.createSession id now title projectId)) w =
      (.error e, w.tick) := by
  have hcreate := Store.createSession_eq w.store id now title projectId
  cases hproject : w.store.db.ensureProject projectId with
  | error e =>
    rw [hproject] at hcreate
    refine ⟨e, ?_⟩
    rw [World.handle, StoreOp.perform, hcreate]
    rfl
  | ok u =>
    cases hid : w.store.db.sessions.contains id with
    | false => exact absurd ⟨hproject, hid⟩ h
    | true =>
      rw [hproject] at hcreate
      dsimp only at hcreate
      rw [hid, if_pos rfl] at hcreate
      refine ⟨.database, ?_⟩
      rw [World.handle, StoreOp.perform, hcreate]
      rfl

/-! ## Fresh ids -/

/-- `Uuid::now_v7` gives no id twice, and none that is in use. -/
structure Surroundings.Fresh (env : Surroundings) (w : World) : Prop where
  distinct : ∀ m n, w.clock ≤ m → w.clock ≤ n →
    env.answer m .newUuid = env.answer n .newUuid → m = n
  session : ∀ n, w.clock ≤ n → w.store.db.sessions.contains (env.answer n .newUuid) = false
  link : ∀ n, w.clock ≤ n → ∀ link ∈ w.store.db.agentLinks,
    link.instanceId ≠ env.answer n .newUuid ∧ link.childSessionId ≠ env.answer n .newUuid
  agent : ∀ n, w.clock ≤ n → ∀ sessionId p, w.view sessionId = some p →
    p.agents.contains (env.answer n .newUuid) = false

theorem Surroundings.Fresh.reads (h : env.Fresh w) (hreads : w.Reads w')
    (hclock : w.clock ≤ w'.clock) : env.Fresh w' where
  distinct m n hm hn := h.distinct m n (hclock.trans hm) (hclock.trans hn)
  session n hn := hreads.db ▸ h.session n (hclock.trans hn)
  link n hn := hreads.db ▸ h.link n (hclock.trans hn)
  agent n hn sessionId p hview := h.agent n (hclock.trans hn) sessionId p (hreads.view _ ▸ hview)

/-- A session with an id that was drawn before. -/
theorem Surroundings.Fresh.adds (h : env.Fresh w) (hw : w.Sound) {n₀ : Nat}
    (hadds : w.Adds w' (env.answer n₀ .newUuid)) (hclock : w.clock ≤ n₀) (hn₀ : n₀ < w'.clock) :
    env.Fresh w' where
  distinct m n hm hn := h.distinct m n (by omega) (by omega)
  session n hn := by
    rw [Bool.eq_false_iff, ne_eq, hadds.present, not_or, Bool.not_eq_true]
    refine ⟨h.session n (by omega), fun heq => ?_⟩
    have hsame := h.distinct n n₀ (by omega) hclock heq
    omega
  link n hn := hadds.links ▸ h.link n (by omega)
  agent n hn sessionId p hview := by
    by_cases hid : sessionId = env.answer n₀ .newUuid
    · obtain ⟨q, hblank, hq⟩ := hadds.blank hw
      rw [hid, hq] at hview
      cases hview
      rw [hblank.agents]
      rfl
    · exact h.agent n (by omega) sessionId p (hadds.view hw _ hid ▸ hview)

theorem World.Reads.adds {w₁ : World} {id : String} (h : w.Reads w₁) (hadds : w₁.Adds w' id) :
    w.Adds w' id where
  new := h.db ▸ hadds.new
  sound hw := hadds.sound (h.sound hw)
  present := h.db ▸ hadds.present
  row := h.db ▸ hadds.row
  projects := h.db ▸ hadds.projects
  links := h.db ▸ hadds.links
  view hw id' hne := (hadds.view (h.sound hw) id' hne).trans (h.view id')
  blank hw := hadds.blank (h.sound hw)

end Opening

/-! ## The checks -/

section Checks

variable {env : Surroundings} {w w' : World} {parentSessionId parentRunId : String}
  {arguments : Json} {plan : Plan} {fails : SpawnStep → Bool}

/-- What the checks of a delegation ask for: a configured agent with a provider that can be
resolved, a depth below the limit, closed messages of the parent within the limits, and its
session. -/
structure Checked (env : Surroundings) (w : World) (parentSessionId parentRunId : String)
    (arguments : Json) (plan : Plan) : Prop where
  request : DelegationRequest.ofJson? arguments = some plan.request
  config : ∃ config child p run request messages,
    env.answer w.clock .configSnapshot = .ok config ∧
    config.agent plan.request.agent = .ok child ∧ child.provider = some plan.provider ∧
    child.model = some plan.model ∧ plan.limits = config.orchestration ∧
    w.view parentSessionId = some p ∧ p.runs.get? parentRunId = some run ∧
    RunRequest.ofJson? run.request = some request ∧
    plan.ceiling = (permissionCeiling config request).toJson ∧
    selectMessages p.messages plan.request.contextMessageIds = .ok messages ∧
    plan.references = messages.map (fun message =>
      { sourceSessionId := parentSessionId, messageId := message.messageId
        lastEventId := message.lastEventId }) ∧
    plan.copied = .arr (messages.map copiedMessage)
  resolved : ∃ provider, env.answer (w.clock + 1) (.resolveProvider plan.provider) = .ok provider
  depth : ∃ links, w.store.db.agentLinksOf parentSessionId = .ok links ∧
    plan.parentDepth = ((childLink parentSessionId links).map (·.depth)).getD 0
  below : plan.parentDepth < plan.limits.maxDepth
  few : plan.request.contextMessageIds.length ≤ plan.limits.maxContextMessageIds
  small : plan.copied.size ≤ plan.limits.maxContextBytes
  session : ∃ session, w.store.db.getSession parentSessionId = .ok session ∧
    plan.projectId = session.projectId

section Steps

variable {α β : Type} {b : β} {handle : (op : ServerOp) → World → op.Reply × World}

theorem expect_bind_eq_ok {e : StoreError} {x : Option α} {f : α → ServerProgram β} :
    (expect e x >>= f).run handle w = (.ok b, w') ↔
      ∃ v, x = some v ∧ (f v).run handle w = (.ok b, w') := by
  cases x with
  | none => exact iff_of_false (fun h => by cases h) fun ⟨_, h, _⟩ => by cases h
  | some v =>
    refine ⟨fun h => ⟨v, rfl, h⟩, ?_⟩
    rintro ⟨v', hv', h⟩
    cases hv'
    exact h

theorem ofExcept_bind_eq_ok {x : Except StoreError α} {f : α → ServerProgram β} :
    ((.ofExcept x : ServerProgram α) >>= f).run handle w = (.ok b, w') ↔
      ∃ v, x = .ok v ∧ (f v).run handle w = (.ok b, w') := by
  cases x with
  | error e => exact iff_of_false (fun h => by cases h) fun ⟨_, h, _⟩ => by cases h
  | ok v =>
    refine ⟨fun h => ⟨v, rfl, h⟩, ?_⟩
    rintro ⟨v', hv', h⟩
    cases hv'
    exact h

theorem guard_eq_ok {c : Prop} [Decidable c] {e : StoreError} {p : ServerProgram β} :
    (if c then .fail e else p).run handle w = (.ok b, w') ↔ ¬ c ∧ p.run handle w = (.ok b, w') := by
  split
  · next h => exact iff_of_false (fun h => by cases h) fun h' => h'.1 h
  · next h => rw [and_iff_right h]

theorem snapshot_bind_eq_ok {f : PiqoConfig → ServerProgram β} :
    (snapshot >>= f).run (World.handleFailing env parentSessionId fails) w = (.ok b, w') ↔
      ∃ config, env.answer w.clock .configSnapshot = .ok config ∧
        (f config).run (World.handleFailing env parentSessionId fails) w.tick = (.ok b, w') := by
  rw [snapshot, Program.bind_assoc, Program.run_bind_ok _ (ask_failing _ w)]
  cases env.answer w.clock .configSnapshot with
  | error message =>
    refine iff_of_false (fun h => by cases h) ?_
    rintro ⟨_, h, _⟩
    cases h
  | ok config =>
    refine ⟨fun h => ⟨config, rfl, h⟩, ?_⟩
    rintro ⟨config', hconfig, h⟩
    cases hconfig
    exact h

theorem resolveProvider_bind_eq_ok {name : String} {f : ResolvedProvider → ServerProgram β} :
    (resolveProvider name >>= f).run (World.handleFailing env parentSessionId fails) w =
        (.ok b, w') ↔
      ∃ provider, env.answer w.clock (.resolveProvider name) = .ok provider ∧
        (f provider).run (World.handleFailing env parentSessionId fails) w.tick = (.ok b, w') := by
  rw [resolveProvider, Program.bind_assoc, Program.run_bind_ok _ (ask_failing _ w)]
  rcases env.answer w.clock (.resolveProvider name) with (name | message) | provider
  · refine iff_of_false (fun h => by cases h) ?_
    rintro ⟨_, h, _⟩
    cases h
  · refine iff_of_false (fun h => by cases h) ?_
    rintro ⟨_, h, _⟩
    cases h
  · refine ⟨fun h => ⟨provider, rfl, h⟩, ?_⟩
    rintro ⟨provider', hprovider, h⟩
    cases hprovider
    exact h

theorem onStore_bind_eq_ok {op : StoreOp} {f : op.Result → ServerProgram β} :
    (onStore op >>= f).run (World.handleFailing env parentSessionId fails) w = (.ok b, w') ↔
      ((op.spawnStep parentSessionId).any fails = false ∧
        (op.rereads && fails .readCreated) = false) ∧
      ∃ v, (World.handle env (.store op) w).1 = .ok v ∧
        (f v).run (World.handleFailing env parentSessionId fails)
          (World.handle env (.store op) w).2 = (.ok b, w') := by
  rw [Program.run_bind_eq_ok]
  constructor
  · rintro ⟨v, w₁, hv, hrest⟩
    obtain ⟨hworks, hhandle⟩ := onStore_eq_ok.mp hv
    refine ⟨hworks, v, ?_⟩
    rw [hhandle]
    exact ⟨rfl, hrest⟩
  · rintro ⟨hworks, v, hv, hrest⟩
    exact ⟨v, _, onStore_eq_ok.mpr ⟨hworks, Prod.ext hv rfl⟩, hrest⟩

/-- The world after a session is read. -/
def World.reading (env : Surroundings) (w : World) (sessionId : String) : World :=
  (World.handle env (.store (.projection sessionId)) w).2

theorem World.reads_reading (env : Surroundings) (hw : w.Sound) {sessionId : String}
    {p : SessionProjection}
    (hview : w.view sessionId = some p) :
    (World.handle env (.store (.projection sessionId)) w).1 = .ok p ∧
      w.Reads (w.reading env sessionId) := by
  obtain ⟨w₁, hread, hreads⟩ := projection_run env hw hview
  rw [onStore_run] at hread
  rw [World.reading, hread]
  exact ⟨rfl, hreads⟩

theorem loadRun_bind_eq_ok (hw : w.Sound) {sessionId runId : String}
    {f : SessionProjection × RunProjection → ServerProgram β} :
    (loadRun sessionId runId >>= f).run (World.handleFailing env parentSessionId fails) w =
        (.ok b, w') ↔
      ((StoreOp.projection sessionId).spawnStep parentSessionId).any fails = false ∧
      ∃ p run, w.view sessionId = some p ∧ p.runs.get? runId = some run ∧
        (f (p, run)).run (World.handleFailing env parentSessionId fails) (w.reading env sessionId) =
          (.ok b, w') := by
  rw [loadRun, Program.bind_assoc, onStore_bind_eq_ok]
  constructor
  · rintro ⟨⟨hworks, -⟩, p, hp, h⟩
    rw [Program.bind_assoc] at h
    obtain ⟨run, hrun, h⟩ := expect_bind_eq_ok.mp h
    refine ⟨hworks, p, run, ?_, hrun, h⟩
    cases hview : w.view sessionId with
    | none =>
      have herror : (World.handle env (.store (.projection sessionId)) w).1 =
          .error (.sessionNotFound sessionId) :=
        congrArg Prod.fst (Store.Sound.projection_missing hw hview)
      rw [herror] at hp
      cases hp
    | some q =>
      rw [(World.reads_reading env hw hview).1] at hp
      cases hp
      rfl
  · rintro ⟨hworks, p, run, hview, hrun, h⟩
    refine ⟨⟨hworks, rfl⟩, p, (World.reads_reading env hw hview).1, ?_⟩
    rw [Program.bind_assoc]
    exact expect_bind_eq_ok.mpr ⟨run, hrun, h⟩

end Steps

/-- The world after the checks, which read only. -/
def World.checked (env : Surroundings) (w : World) (parentSessionId : String) : World :=
  (w.tick.tick.tick.reading env parentSessionId).tick

theorem World.reads_checked (hw : w.Sound) {p : SessionProjection}
    (hview : w.view parentSessionId = some p) : w.Reads (w.checked env parentSessionId) :=
  (((World.reads_tick w).trans (World.reads_tick _)).trans (World.reads_tick _)).trans
    ((World.reads_reading env (w := w.tick.tick.tick) hw hview).2.trans (World.reads_tick _))

theorem World.clock_checked : (w.checked env parentSessionId).clock = w.clock + 5 := rfl

theorem Checked.view (h : Checked env w parentSessionId parentRunId arguments plan) :
    ∃ p, w.view parentSessionId = some p := by
  obtain ⟨config, child, p, run, request, messages, -, -, -, -, -, hview, -⟩ := h.config
  exact ⟨p, hview⟩

/-- **What the checks ask for.** They let a delegation through exactly where `Checked` holds and
what they read can be read, and leave the tables. -/
theorem checkDelegation_eq_ok_iff (hw : w.Sound) :
    (checkDelegation parentSessionId parentRunId arguments).run
        (World.handleFailing env parentSessionId fails) w = (.ok plan, w') ↔
      (fails .readLinks = false ∧ fails .readParent = false ∧ fails .readSession = false) ∧
      Checked env w parentSessionId parentRunId arguments plan ∧
      w' = w.checked env parentSessionId := by
  have hticks : w.tick.tick.tick.Sound := hw
  unfold checkDelegation
  constructor
  · intro h
    obtain ⟨request, hrequest, h⟩ := expect_bind_eq_ok.mp h
    obtain ⟨config, hconfig, h⟩ := snapshot_bind_eq_ok.mp h
    obtain ⟨child, hchild, h⟩ := ofExcept_bind_eq_ok.mp h
    rw [Except.mapError_eq_ok] at hchild
    obtain ⟨provider, hprovider, h⟩ := expect_bind_eq_ok.mp h
    obtain ⟨model, hmodel, h⟩ := expect_bind_eq_ok.mp h
    obtain ⟨resolved, hresolved, h⟩ := resolveProvider_bind_eq_ok.mp h
    obtain ⟨⟨hreadLinks, -⟩, links, hlinks, h⟩ := onStore_bind_eq_ok.mp h
    obtain ⟨hdepth, h⟩ := guard_eq_ok.mp h
    obtain ⟨hfew, h⟩ := guard_eq_ok.mp h
    obtain ⟨hreadParent, p, run, hview, hrun, h⟩ := (loadRun_bind_eq_ok hticks).mp h
    obtain ⟨parentRequest, hparentRequest, h⟩ := expect_bind_eq_ok.mp h
    obtain ⟨messages, hmessages, h⟩ := ofExcept_bind_eq_ok.mp h
    obtain ⟨hsmall, h⟩ := guard_eq_ok.mp h
    obtain ⟨⟨hreadSession, -⟩, session, hsession, h⟩ := onStore_bind_eq_ok.mp h
    have hdb := (World.reads_reading env hticks hview).2.db
    have hsession' : (w.tick.tick.tick.reading env parentSessionId).store.db.getSession
      parentSessionId = .ok session := hsession
    rw [hdb] at hsession'
    cases h
    rw [StoreOp.spawnStep, if_pos rfl] at hreadParent
    exact ⟨⟨hreadLinks, hreadParent, hreadSession⟩, ⟨hrequest, ⟨config, child, p, run,
      parentRequest, messages, hconfig, hchild, hprovider, hmodel, rfl, hview, hrun, hparentRequest,
      rfl, hmessages, rfl, rfl⟩, ⟨resolved, hresolved⟩, ⟨links, hlinks, rfl⟩, Nat.not_le.mp hdepth,
      Nat.not_lt.mp hfew, Nat.not_lt.mp hsmall, ⟨session, hsession', rfl⟩⟩, rfl⟩
  · rintro ⟨⟨hreadLinks, hreadParent, hreadSession⟩, hchecked, rfl⟩
    obtain ⟨config, child, p, run, parentRequest, messages, hconfig, hchild, hprovider, hmodel,
      hlimits, hview, hrun, hparentRequest, hceiling, hmessages, hreferences, hcopied⟩ :=
        hchecked.config
    obtain ⟨resolved, hresolved⟩ := hchecked.resolved
    obtain ⟨links, hlinks, hdepth⟩ := hchecked.depth
    obtain ⟨session, hsession, hproject⟩ := hchecked.session
    have hbelow := hchecked.below
    have hfew := hchecked.few
    have hsmall := hchecked.small
    obtain ⟨request, limits, provider, model, parentDepth, ceiling, references, copied,
      projectId⟩ := plan
    subst hlimits hceiling hreferences hcopied hdepth hproject
    refine expect_bind_eq_ok.mpr ⟨_, hchecked.request, ?_⟩
    refine snapshot_bind_eq_ok.mpr ⟨config, hconfig, ?_⟩
    refine ofExcept_bind_eq_ok.mpr ⟨child, Except.mapError_eq_ok.mpr hchild, ?_⟩
    refine expect_bind_eq_ok.mpr ⟨_, hprovider, expect_bind_eq_ok.mpr ⟨_, hmodel, ?_⟩⟩
    refine resolveProvider_bind_eq_ok.mpr ⟨resolved, hresolved, ?_⟩
    refine onStore_bind_eq_ok.mpr ⟨⟨hreadLinks, rfl⟩, links, hlinks, ?_⟩
    refine guard_eq_ok.mpr ⟨Nat.not_le.mpr hbelow, guard_eq_ok.mpr ⟨Nat.not_lt.mpr hfew, ?_⟩⟩
    refine (loadRun_bind_eq_ok hticks).mpr ⟨?_, p, run, hview, hrun, ?_⟩
    · rw [StoreOp.spawnStep, if_pos rfl]
      exact hreadParent
    refine expect_bind_eq_ok.mpr ⟨parentRequest, hparentRequest, ?_⟩
    refine ofExcept_bind_eq_ok.mpr ⟨messages, hmessages, ?_⟩
    refine guard_eq_ok.mpr ⟨Nat.not_lt.mpr hsmall, ?_⟩
    refine onStore_bind_eq_ok.mpr ⟨⟨hreadSession, rfl⟩, session, ?_, rfl⟩
    have hdb := (World.reads_reading env hticks hview).2.db
    show (w.tick.tick.tick.reading env parentSessionId).store.db.getSession parentSessionId =
      .ok session
    rw [hdb]
    exact hsession

/-- What the checks call. -/
def ServerOp.checks : ServerOp → Prop
  | .external _ | .store (.agentLinks _) | .store (.projection _) | .store (.getSession _) => True
  | _ => False

theorem checkDelegation_only :
    (checkDelegation parentSessionId parentRunId arguments).Only ServerOp.checks := by
  unfold checkDelegation
  refine follows_expect (fun request _ => ?_) trivial
  refine follows_snapshot trivial (fun config => ?_) fun _ _ => trivial
  refine follows_ofExcept (fun child _ => ?_) fun _ _ => trivial
  refine follows_expect (fun provider _ => ?_) trivial
  refine follows_expect (fun model _ => ?_) trivial
  rw [resolveProvider, Program.bind_assoc]
  refine follows_ask trivial fun resolved => ?_
  rcases resolved with (name | message) | resolved
  · trivial
  · trivial
  refine follows_onStore trivial (fun links => ?_) fun _ => trivial
  refine iteInduction (fun _ => trivial) fun _ => ?_
  refine iteInduction (fun _ => trivial) fun _ => ?_
  refine follows_loadRun trivial (fun p run _ => ?_) fun _ _ => trivial
  refine follows_expect (fun parentRequest _ => ?_) trivial
  refine follows_ofExcept (fun messages _ => ?_) fun _ _ => trivial
  refine iteInduction (fun _ => trivial) fun _ => ?_
  exact follows_onStore trivial (fun session => trivial) fun _ => trivial

/-- The checks leave the tables, whatever they find and whatever fails. -/
theorem checkDelegation_tables (env : Surroundings) (fails : SpawnStep → Bool) (w : World)
    (parentSessionId parentRunId : String) (arguments : Json) :
    ((checkDelegation parentSessionId parentRunId arguments).run
      (World.handleFailing env parentSessionId fails) w).2.store.db = w.store.db := by
  have hcalls : ∀ op (v : World), ServerOp.checks op →
      (World.handleFailing env parentSessionId fails op v).2.store.db = v.store.db := by
    intro op v hop
    cases op with
    | publish record => cases hop
    | startWorker sessionId => cases hop
    | external op => rfl
    | store op =>
      rw [World.handleFailing]
      split
      · rfl
      · cases op with
        | agentLinks id => rfl
        | getSession id => rfl
        | projection id => exact projection_tables id
        | _ => cases hop
  obtain ⟨-, hdb, -⟩ := Program.Follows.run
    (R := fun (_ : Unit) (v : World) => v.store.db = w.store.db)
    (fun _ op v hv hop => (hcalls op v hop).trans hv) checkDelegation_only rfl
  exact hdb

end Checks

/-! ## The session -/

section Creation

variable {env : Surroundings} {w : World} {parentSessionId : String} {plan : Plan}
  {fails : SpawnStep → Bool}

/-- The id of the child session. -/
def childId (env : Surroundings) (w : World) : String := env.answer w.clock .newUuid

/-- The creation of the session succeeds, or nothing is written, or the session stays while the
creation fails. -/
theorem createChild_cases (env : Surroundings) (parentSessionId : String)
    (fails : SpawnStep → Bool) (plan : Plan) (w : World) :
    let r := (createChild plan).run (World.handleFailing env parentSessionId fails) w
    ((fails .createSession = false ∧ w.store.db.ensureProject plan.projectId = .ok () ∧
        w.store.db.sessions.contains (childId env w) = false) ∧ fails .readCreated = false ∧
      ∃ session w', r = (.ok session, w') ∧ session.id = childId env w ∧
        w.Adds w' (childId env w) ∧ w'.clock = w.clock + 3) ∨
    ((fails .createSession = false ∧ w.store.db.ensureProject plan.projectId = .ok () ∧
        w.store.db.sessions.contains (childId env w) = false) ∧ fails .readCreated = true ∧
      ∃ e w', r = (.error e, w') ∧ w'.store.db.sessions.contains (childId env w) = true) ∨
    ¬ (fails .createSession = false ∧ w.store.db.ensureProject plan.projectId = .ok () ∧
        w.store.db.sessions.contains (childId env w) = false) ∧
      ∃ e w', r = (.error e, w') ∧ w'.store.db = w.store.db := by
  intro r
  have hr : r = (onStore (.createSession (childId env w) (env.answer (w.clock + 1) .readClock)
      (some ("Delegated: " ++ plan.request.agent)) plan.projectId)).run
        (World.handleFailing env parentSessionId fails) w.tick.tick := rfl
  set op := StoreOp.createSession (childId env w) (env.answer (w.clock + 1) .readClock)
      (some ("Delegated: " ++ plan.request.agent)) plan.projectId with hop
  cases hstep : fails .createSession with
  | true =>
    have hfails : (op.spawnStep parentSessionId).any fails = true := hstep
    exact .inr (.inr ⟨by simp, .database, w.tick.tick.tick,
      hr.trans (onStore_failing hfails _), rfl⟩)
  | false =>
    have hworks : (op.spawnStep parentSessionId).any fails = false := hstep
    by_cases hinsertable : w.store.db.ensureProject plan.projectId = .ok () ∧
        w.store.db.sessions.contains (childId env w) = false
    · have hcreated : World.handle env (.store op) w.tick.tick = _ :=
        handle_createSession (w := w.tick.tick) hinsertable.1 hinsertable.2
      have hadds := World.adds_created (w := w.tick.tick) (env.answer (w.clock + 1) .readClock)
        (some ("Delegated: " ++ plan.request.agent)) hinsertable.1 hinsertable.2
      cases hreread : fails .readCreated with
      | false =>
        refine .inl ⟨⟨rfl, hinsertable⟩, rfl, _, _, hr.trans ((onStore_working hworks ?_ _).trans
          hcreated), rfl, ?_, rfl⟩
        · rw [hreread, Bool.and_false]
        · exact ((World.reads_tick w).trans (World.reads_tick _)).adds hadds
      | true =>
        refine .inr (.inl ⟨⟨rfl, hinsertable⟩, rfl, .database, _, ?_,
          (hadds.present _).mpr (.inr rfl)⟩)
        rw [hr, onStore, Program.run_call, Program.run_ofExcept, World.handleFailing, hworks,
          if_neg Bool.false_ne_true, hreread, Bool.and_true, hcreated]
        rfl
    · obtain ⟨e, hrefused⟩ := handle_createSession_refused env (w := w.tick.tick)
        (env.answer (w.clock + 1) .readClock) (some ("Delegated: " ++ plan.request.agent))
        hinsertable
      refine .inr (.inr ⟨fun h => hinsertable h.2, ?_⟩)
      cases hreread : fails .readCreated with
      | false =>
        refine ⟨e, w.tick.tick.tick, hr.trans ((onStore_working hworks ?_ _).trans hrefused), rfl⟩
        rw [hreread, Bool.and_false]
      | true =>
        refine ⟨e, w.tick.tick.tick, ?_, rfl⟩
        rw [hr, onStore, Program.run_call, Program.run_ofExcept, World.handleFailing, hworks,
          if_neg Bool.false_ne_true, hreread, Bool.and_true, hrefused]
        rfl

end Creation

/-! ## The link -/

section Linking

variable {env : Surroundings} {w : World} {parentSessionId parentRunId parentCallId : String}
  {plan : Plan} {session : SessionSummary} {fails : SpawnStep → Bool}

/-- A link is added where its ids are not in use and its sessions are there. -/
theorem Store.createAgentLink_eq (store : Store) (link : AgentLinkRecord) :
    store.transact (·.createAgentLink link) =
      if store.db.linkInsertable link then
        (.ok (), { store with db := { store.db with agentLinks := store.db.agentLinks ++ [link] } })
      else (.error (.agentLinkConflict link.parentCallId), store) := by
  rw [Store.transact, Database.createAgentLink]
  by_cases h : store.db.linkInsertable link = true
  · rw [if_pos h, if_pos h]
  · rw [if_neg h, if_neg h]

theorem handle_createAgentLink (env : Surroundings) (w : World) (link : AgentLinkRecord) :
    World.handle env (.store (.createAgentLink link)) w =
      if w.store.db.linkInsertable link then
        (.ok (), { w with
          store := { w.store with
            db := { w.store.db with agentLinks := w.store.db.agentLinks ++ [link] } }
          clock := w.clock + 1 })
      else (.error (.agentLinkConflict link.parentCallId), w.tick) := by
  rw [World.handle, StoreOp.perform, Store.createAgentLink_eq]
  by_cases h : w.store.db.linkInsertable link = true
  · rw [if_pos h, if_pos h]
  · rw [if_neg h, if_neg h]
    rfl

/-- What a link leaves: the link, beside what was there. -/
structure World.Links (w w' : World) (link : AgentLinkRecord) : Prop where
  sound : w.Sound → w'.Sound
  view : ∀ id, w'.view id = w.view id
  db : w'.store.db = { w.store.db with agentLinks := w.store.db.agentLinks ++ [link] }

/-- Whether the call id is that of another delegation, of whichever run. -/
def World.CallUsed (w : World) (parentCallId : String) : Prop :=
  ∃ link ∈ w.store.db.agentLinks, link.parentCallId = parentCallId

theorem linkInsertable_iff {db : Database} {link : AgentLinkRecord}
    (hids : ∀ other ∈ db.agentLinks, other.instanceId ≠ link.instanceId ∧
      other.childSessionId ≠ link.childSessionId)
    (hparent : db.sessions.contains link.parentSessionId = true)
    (hchild : db.sessions.contains link.childSessionId = true) (hdepth : 1 ≤ link.depth) :
    db.linkInsertable link = true ↔
      ¬ ∃ other ∈ db.agentLinks, other.parentCallId = link.parentCallId := by
  rw [Database.linkInsertable, hparent, hchild, decide_eq_true hdepth]
  simp only [Bool.and_true, List.all_eq_true, Bool.and_eq_true, decide_eq_true_eq, ne_eq,
    not_exists, not_and]
  exact forall₂_congr fun other hother =>
    ⟨fun h => h.1.2, fun h => ⟨⟨(hids other hother).1, h⟩, (hids other hother).2⟩⟩

/-- The link is there, or the delegation fails: the call id is in use, or the step fails. -/
theorem linkChild_cases (env : Surroundings) (fails : SpawnStep → Bool)
    (parentRunId parentCallId : String) (plan : Plan)
    (hids : ∀ link ∈ w.store.db.agentLinks, link.instanceId ≠ env.answer w.clock .newUuid ∧
      link.childSessionId ≠ session.id)
    (hparent : w.store.db.sessions.contains parentSessionId = true)
    (hchild : w.store.db.sessions.contains session.id = true) :
    let r := (linkChild parentSessionId parentRunId parentCallId plan session).run
      (World.handleFailing env parentSessionId fails) w
    ((fails .createLink = false ∧ ¬ w.CallUsed parentCallId) ∧
      ∃ (d : Delegation) (link : AgentLinkRecord) (w' : World), r = (.ok d, w') ∧
        w.Links w' link ∧ w'.clock = w.clock + 4 ∧
        link.parentCallId = parentCallId ∧ link.childSessionId = session.id ∧
        link.instanceId = env.answer w.clock .newUuid ∧ d.link.parentSessionId = parentSessionId ∧
        d.link.childSessionId = session.id ∧ d.link.instanceId = env.answer w.clock .newUuid) ∨
    ¬ (fails .createLink = false ∧ ¬ w.CallUsed parentCallId) ∧ ∃ e w', r = (.error e, w') := by
  intro r
  cases hstep : fails .createLink with
  | true =>
    refine .inr ⟨by simp, .database, w.tick.tick.tick.tick, ?_⟩
    show (onStore (.createAgentLink _) >>= _).run _ w.tick.tick.tick = _
    refine Program.run_bind_error _ (onStore_failing ?_ _)
    exact hstep
  | false =>
    set link : AgentLinkRecord := {
      instanceId := env.answer w.clock .newUuid, profileId := plan.request.agent
      parentSessionId, parentRunId, parentCallId, childSessionId := session.id
      childRunId := env.answer (w.clock + 1) .newUuid, depth := min (plan.parentDepth + 1) 255
      budget := {
        maxModelTurns := plan.limits.maxChildModelTurns
        maxDurationSeconds := plan.limits.maxChildDurationSeconds
        maxTreeDurationSeconds := plan.limits.maxTreeDurationSeconds
        maxTreeTokens := plan.limits.maxTreeTokens
        maxContextBytes := plan.limits.maxContextBytes
        maxResultBytes := plan.limits.maxResultBytes }
      permissionCeiling := plan.ceiling
      createdAt := env.answer (w.clock + 2) .readClock } with hlink
    set d : Delegation := {
      link := {
        instanceId := link.instanceId, profileId := link.profileId, parentSessionId, parentRunId
        parentCallId, childSessionId := session.id, childRunId := link.childRunId
        depth := link.depth, budget := link.budget, permissionCeiling := plan.ceiling }
      task := plan.request.task, provider := plan.provider, model := plan.model
      references := plan.references, copied := plan.copied } with hd
    have hinsertable : w.store.db.linkInsertable link = true ↔ ¬ w.CallUsed parentCallId :=
      linkInsertable_iff hids hparent hchild (le_min (Nat.le_add_left 1 _) (by decide))
    have hworks : ((StoreOp.createAgentLink link).spawnStep parentSessionId).any fails = false :=
      hstep
    have hcreate := handle_createAgentLink env w.tick.tick.tick link
    by_cases hused : w.CallUsed parentCallId
    · refine .inr ⟨fun h => h.2 hused, .agentLinkConflict parentCallId, w.tick.tick.tick.tick, ?_⟩
      show (onStore (.createAgentLink link) >>= _).run _ w.tick.tick.tick = _
      refine Program.run_bind_error _ ((onStore_working hworks rfl _).trans (hcreate.trans ?_))
      exact if_neg (mt hinsertable.mp (not_not.mpr hused))
    · have hhandle := hcreate.trans (if_pos (hinsertable.mpr hused))
      have hrun : (onStore (.createAgentLink link) >>= fun _ =>
          (pure d : ServerProgram Delegation)).run
            (World.handleFailing env parentSessionId fails) w.tick.tick.tick = _ :=
        Program.run_bind_ok _ ((onStore_working hworks rfl _).trans hhandle)
      refine .inl ⟨⟨rfl, hused⟩, d, link, _, hrun, ⟨fun hw => ?_, fun id => rfl, rfl⟩, rfl, rfl,
        rfl, rfl, rfl, rfl, rfl⟩
      have hsound := World.handle_sound env (w := w.tick.tick.tick) hw
        (.store (.createAgentLink link))
      rw [hhandle] at hsound
      exact hsound

end Linking

/-! ## The events -/

/-- An event that is not about the phase of the session is applied to the rest. -/
theorem apply_of_phase {p : SessionProjection} {eventId : Nat} {event : SemanticEvent}
    (h : p.state.applyPhase event = .ok p.state) :
    p.apply eventId event = { p with
      state := { p.state with lastEventId := some eventId } }.applyEvent eventId event := by
  rw [SessionProjection.apply, SessionState.apply, h]
  rfl

/-- A session is told of an agent it does not know. -/
theorem applyAll_spawned {p : SessionProjection} {agentId : String} (parentId : Option String)
    (link : Option AgentLink) (hagent : p.agents.contains agentId = false) :
    ∃ q, p.applyAll [.agentSpawned agentId parentId link none] = .ok q ∧
      q.messages = p.messages ∧ q.runs = p.runs ∧ q.agents = p.agents.insert agentId .created := by
  rw [SessionProjection.applyAll, apply_of_phase rfl, SessionProjection.applyEvent, hagent,
    if_neg Bool.false_ne_true]
  exact ⟨_, rfl, rfl, rfl, rfl⟩

/-- A new session is told of its agent, the context and a message, which stays open. -/
theorem SessionProjection.Blank.applyAll_start {p : SessionProjection} (h : p.Blank)
    (agentId : String) (parentId : Option String) (link : Option AgentLink)
    (references : List DelegatedContextRef) (messageId author : String) :
    ∃ q message, p.applyAll [.agentSpawned agentId parentId link none,
        .agentContextCaptured agentId references,
        .messageStarted messageId author .system (.agent author)] = .ok q ∧
      q.messages = [message] ∧ message.closed = false ∧ q.runs = ∅ ∧
      q.agents = (∅ : SortedMap String AgentPhase).insert agentId .created := by
  have hspawned : p.apply (p.state.lastEventId.getD 0 + 1)
      (.agentSpawned agentId parentId link none) = .ok { p with
        state := { p.state with lastEventId := some (p.state.lastEventId.getD 0 + 1) }
        agents := p.agents.insert agentId .created
        agentInstances := p.agentInstances.insert agentId
          { agentId, parentId, link, configRevision := none, context := [], result := none } } := by
    rw [apply_of_phase rfl, SessionProjection.applyEvent, h.agents]
    rfl
  rw [SessionProjection.applyAll_cons hspawned, SessionProjection.applyAll, apply_of_phase rfl,
    SessionProjection.applyEvent, SessionProjection.updateInstance]
  dsimp only
  rw [SortedMap.get?_insert_self]
  dsimp only
  rw [if_neg (fun h => h.1 rfl)]
  dsimp only [Except.map, Except.bind]
  rw [SessionProjection.applyAll, apply_of_phase rfl, SessionProjection.applyEvent]
  dsimp only
  rw [h.messages, h.runs, h.agents]
  exact ⟨_, _, rfl, rfl, rfl, rfl, rfl⟩

theorem updateOpenMessage_singleton {message : MessageProjection} {messageId : String}
    (hid : message.messageId = messageId) (hopen : message.closed = false)
    (f : MessageProjection → MessageProjection) :
    updateOpenMessage messageId f [message] = .ok [f message] := by
  rw [updateOpenMessage, updateMessage, if_pos hid, hopen, if_neg Bool.false_ne_true]
  rfl

/-- The message gets the context and is closed, and the run is queued. -/
theorem applyAll_queue {p : SessionProjection} {message : MessageProjection}
    (hmessages : p.messages = [message]) (hopen : message.closed = false) (hruns : p.runs = ∅)
    (block : ContentBlock) (runId provider model : String) (request : Json) :
    ∃ q, p.applyAll [.messageContentAppended message.messageId block,
        .messageCompleted message.messageId, .runQueued runId none provider model request] = .ok q ∧
      q.agents = p.agents := by
  rw [SessionProjection.applyAll, apply_of_phase rfl, SessionProjection.applyEvent]
  dsimp only
  rw [hmessages, updateOpenMessage_singleton rfl hopen]
  dsimp only [Except.map, Except.bind]
  rw [SessionProjection.applyAll, apply_of_phase rfl, SessionProjection.applyEvent]
  dsimp only
  -- the message that got the context is the one that was open
  rw [updateOpenMessage_singleton]
  · dsimp only [Except.map, Except.bind]
    rw [SessionProjection.applyAll, apply_of_phase rfl, SessionProjection.applyEvent]
    dsimp only
    rw [hruns]
    exact ⟨_, rfl, rfl⟩
  · rfl
  · exact hopen
section Recording

variable {env : Surroundings} {w : World} {parentSessionId childSessionId : String}
  {fails : SpawnStep → Bool}

theorem spawnStep_parent (agentId : String) (parentId : Option String) (link : Option AgentLink)
    (revision : Option Nat) (events : List SemanticEvent) :
    (StoreOp.append parentSessionId
      (.agentSpawned agentId parentId link revision :: events)).spawnStep parentSessionId =
        some .recordParent :=
  congrArg some (if_pos rfl)

theorem spawnStep_child (hne : childSessionId ≠ parentSessionId) (agentId : String)
    (parentId : Option String) (link : Option AgentLink) (revision : Option Nat)
    (events : List SemanticEvent) :
    (StoreOp.append childSessionId
      (.agentSpawned agentId parentId link revision :: events)).spawnStep parentSessionId =
        some .recordChild :=
  congrArg some (if_neg hne)

/-- What the events of a delegation leave: both sessions with the agent, and the rest. -/
structure World.Records (w w' : World) (parentSessionId childSessionId instanceId : String) : Prop
    where
  sound : w'.Sound
  tables : w'.store.db = { w.store.db with sessions := w'.store.db.sessions }
  present : ∀ id, w'.store.db.sessions.contains id = w.store.db.sessions.contains id
  projects : ∀ id, (w'.store.db.sessions.get? id).map (·.summary.projectId) =
    (w.store.db.sessions.get? id).map (·.summary.projectId)
  others : ∀ id, id ≠ parentSessionId → id ≠ childSessionId → w'.view id = w.view id
  parent : ∃ p q, w.view parentSessionId = some p ∧ w'.view parentSessionId = some q ∧
    q.messages = p.messages ∧ q.runs = p.runs ∧ q.agents = p.agents.insert instanceId .created
  child : ∃ q, w'.view childSessionId = some q ∧
    q.agents = (∅ : SortedMap String AgentPhase).insert instanceId .created

theorem spawnWorker_failing (env : Surroundings) (parentSessionId : String)
    (fails : SpawnStep → Bool) (sessionId : String) (w : World) :
    ∃ w', (spawnWorker sessionId).run (World.handleFailing env parentSessionId fails) w =
      (.ok (), w') ∧ w'.store = w.store := by
  rw [spawnWorker, Program.run_bind_ok _ (ask_failing _ w)]
  split
  · exact ⟨_, rfl, rfl⟩
  · exact ⟨_, rfl, rfl⟩

/-- The delegation is recorded in both sessions, or it fails. -/
theorem startDelegatedChild_cases (env : Surroundings) (fails : SpawnStep → Bool) (hw : w.Sound)
    (parentAgentId : String) {d : Delegation}
    {p q : SessionProjection} (hparent : w.view d.link.parentSessionId = some p)
    (hagent : p.agents.contains d.link.instanceId = false)
    (hchild : w.view d.link.childSessionId = some q) (hblank : q.Blank)
    (hne : d.link.childSessionId ≠ d.link.parentSessionId) :
    let r := (startDelegatedChild parentAgentId d).run
      (World.handleFailing env d.link.parentSessionId fails) w
    ((fails .recordParent = false ∧ fails .recordChild = false ∧ fails .readChild = false ∧
        fails .queueRun = false) ∧
      ∃ w', r = (.ok (), w') ∧
        w.Records w' d.link.parentSessionId d.link.childSessionId d.link.instanceId) ∨
    ¬ (fails .recordParent = false ∧ fails .recordChild = false ∧ fails .readChild = false ∧
        fails .queueRun = false) ∧ ∃ e w', r = (.error e, w') := by
  intro r
  have hne' : d.link.parentSessionId ≠ d.link.childSessionId := hne.symm
  -- the parent is told
  cases hrecordParent : fails .recordParent with
  | true =>
    refine .inr ⟨by simp, .database, w.tick, Program.run_bind_error _ (append_failing ?_ w)⟩
    rw [spawnStep_parent]
    exact hrecordParent
  | false =>
  obtain ⟨p₁, hp₁, hmessages₁, hruns₁, hagents₁⟩ :=
    applyAll_spawned (some parentAgentId) (some d.link) hagent
  obtain ⟨record, w₁, hrun₁, hsound₁, hview₁, htouches₁⟩ := append_run env hw hparent hp₁
  have hr₁ : r = _ := Program.run_bind_ok _ ((append_working (by
    rw [spawnStep_parent]
    exact hrecordParent) w).trans hrun₁)
  rw [Program.run_bind_ok _ (ask_failing _ w₁)] at hr₁
  -- the child is told
  cases hrecordChild : fails .recordChild with
  | true =>
    refine .inr ⟨by simp, .database, w₁.tick.tick, hr₁.trans (Program.run_bind_error _
      (appendMany_failing ?_ w₁.tick))⟩
    rw [spawnStep_child hne]
    exact hrecordChild
  | false =>
  have hchild₁ : w₁.view d.link.childSessionId = some q :=
    (htouches₁.store.views _ hne).trans hchild
  obtain ⟨q₂, message, hq₂, hmessages₂, hopen₂, hruns₂, hagents₂⟩ := hblank.applyAll_start
    d.link.instanceId (some parentAgentId) (some d.link) d.references (env.answer w₁.clock .newUuid)
    parentAgentId
  obtain ⟨records, w₂, hrun₂, hsound₂, hview₂, htouches₂⟩ :=
    appendMany_run env (w := w₁.tick) hsound₁ hchild₁ hq₂
  have hr₂ := hr₁.trans (Program.run_bind_ok _ ((appendMany_working (by
    rw [spawnStep_child hne]
    exact hrecordChild) w₁.tick).trans hrun₂))
  -- the child is read
  have hreadStep : (StoreOp.projection d.link.childSessionId).spawnStep d.link.parentSessionId =
      some .readChild := congrArg some (if_neg hne)
  cases hreadChild : fails .readChild with
  | true =>
    refine .inr ⟨by simp, .database, w₂.tick, hr₂.trans (Program.run_bind_error _
      (onStore_failing ?_ w₂))⟩
    rw [hreadStep]
    exact hreadChild
  | false =>
  obtain ⟨w₃, hrun₃, hreads₃⟩ := projection_run env hsound₂ hview₂
  rw [onStore_run] at hrun₃
  have hr₃ := hr₂.trans (Program.run_bind_ok _ ((onStore_working (by
    rw [hreadStep]
    exact hreadChild) rfl w₂).trans hrun₃))
  rw [hmessages₂] at hr₃
  have hr₄ := hr₃.trans (Program.run_bind_ok _ (rfl :
    (_ : Except StoreError MessageProjection × World) = (.ok message, w₃)))
  -- its run is queued
  cases hqueueRun : fails .queueRun with
  | true =>
    refine .inr ⟨by simp, .database, w₃.tick, hr₄.trans (Program.run_bind_error _
      (appendMany_failing ?_ w₃))⟩
    exact hqueueRun
  | false =>
  have hview₃ := (hreads₃.view _).trans hview₂
  obtain ⟨q₅, hq₅, hagents₅⟩ := applyAll_queue hmessages₂ hopen₂ hruns₂ (.json (.object [
    ("delegated_from", .str d.link.parentSessionId), ("messages", d.copied)])) d.link.childRunId
    d.provider d.model (RunRequest.toJson {
      provider := d.provider, model := d.model, input := .str d.task, agent := some d.link.profileId
      variant := none, body := .obj [] })
  obtain ⟨records₅, w₅, hrun₅, hsound₅, hview₅, htouches₅⟩ :=
    appendMany_run env (hreads₃.sound hsound₂) hview₃ hq₅
  obtain ⟨w₆, hworker, hstore⟩ := spawnWorker_failing env d.link.parentSessionId fails
    d.link.childSessionId w₅
  refine .inl ⟨⟨rfl, rfl, rfl, rfl⟩, w₆, hr₄.trans ((Program.run_bind_ok _
    ((appendMany_working ?_ w₃).trans hrun₅)).trans hworker), ?_⟩
  · exact hqueueRun
  have hchildOnly : w₁.tick.store.Touches d.link.childSessionId w₆.store :=
    hstore ▸ (htouches₂.trans ((hreads₃.touches _).trans htouches₅)).store
  have hview : ∀ id, w₆.view id = w₅.view id := fun id => congrArg (Store.view · id) hstore
  have hprojects : ∀ id, (w₆.store.db.sessions.get? id).map (·.summary.projectId) =
      (w.store.db.sessions.get? id).map (·.summary.projectId) := fun id =>
    (hchildOnly.projects id).trans (htouches₁.store.projects id)
  refine ⟨?_, ?_, fun id => ?_, hprojects, fun id hparentId hchildId => ?_, ?_, ?_⟩
  · rw [World.Sound, hstore]
    exact hsound₅
  · rw [hchildOnly.tables, show w₁.tick.store = w₁.store from rfl, htouches₁.store.tables]
  · have hsame := congrArg Option.isSome (hprojects id)
    rw [Option.isSome_map, Option.isSome_map] at hsame
    exact hsame
  · exact (hchildOnly.views id hchildId).trans (htouches₁.store.views id hparentId)
  · exact ⟨p, p₁, hparent, (hchildOnly.views _ hne').trans hview₁, hmessages₁, hruns₁, hagents₁⟩
  · exact ⟨q₅, (hview _).trans hview₅, hagents₅.trans hagents₂⟩

end Recording

end Piqo
