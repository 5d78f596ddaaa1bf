import PiqoServer.Server.ToolResults

/-!
# Approvals

A client decides about a permission request through `approve_permission` and `deny_permission`
(`piqo-server/src/supervisor.rs`). The checks are made on one projection; then an approval may leave
a durable rule, the decision is recorded, and the approved calls of the run are executed.

Neither the checks nor the execution of approved calls look at the status of the run.

## Main definitions

* `SessionProjection.admitResolution`: the checks of a decision, on one projection
* `settlePermission`: what follows the checks
* `ApprovalTaken`: an approval that is recorded, and followed by the execution of approved calls
* `ApprovesIdly`: an approval that executes nothing

## Main results

* `resolvePermission_eq`: the request by its parts
* `approval_executes_nothing_iff`: an approval executes nothing exactly where it is not taken or
  leaves no call to execute
-/

namespace Piqo

/-! ## The request -/

/-- The request that is decided; nothing is left to do where the decision is on record. -/
def SessionProjection.admitResolution (p : SessionProjection) (runId requestId : String)
    (decision : PermissionDecision) (scope : Option PermissionScope) :
    Except StoreError (Option PermissionProjection) :=
  match p.pendingPermissions.get? requestId with
  | none => .error (.invalidRequest "permission request was not found")
  | some request =>
    if request.runId ≠ runId then
      .error (.invalidRequest "permission request does not belong to run")
    else match request.decision with
      | some existing =>
        if existing = decision then .ok none
        else .error (.conflict "permission resolution conflicts with the recorded decision")
      | none =>
        if decision = .deny ∧ scope.isSome then .error .invalidPermissionScope
        else .ok (some request)

section Request

variable (fuel : Nat) (sessionId runId requestId : String)

/-- Record the decision, and do what follows from it. -/
def concludeResolution (request : PermissionProjection) (resolved : SemanticEvent) :
    PermissionDecision → ServerProgram Unit
  | .deny => do
    let callId ← expect (.invalidRequest "permission request has no tool call") request.callId
    let _ ← appendMany sessionId
      [resolved, .toolResult runId callId request.agentId request.toolName permissionDenied]
    if ← resumeIfToolResultsReady sessionId runId then spawnWorker sessionId
  | .allow => do
    let _ ← appendMany sessionId [resolved]
    if ← executeApprovedNativeCalls fuel sessionId runId then spawnWorker sessionId
  | .ask => do
    let _ ← appendMany sessionId [resolved]
    return ()

/-- What follows the checks: the durable rule first, then the decision. -/
def settlePermission (request : PermissionProjection) (decision : PermissionDecision)
    (scope : Option PermissionScope) : ServerProgram Unit := do
  let session ← onStore (.getSession sessionId)
  let rule ← approvalRule sessionId session request scope
  concludeResolution fuel sessionId runId request
    (.permissionResolved requestId decision (some .requestApproval) scope (rule.map (·.id)) none)
    decision

/-- What a decision does once the projection is read. -/
def decidePermission (decision : PermissionDecision) (scope : Option PermissionScope)
    (projection : SessionProjection) : ServerProgram Unit :=
  match projection.admitResolution runId requestId decision scope with
  | .error e => .fail e
  | .ok none => return ()
  | .ok (some request) => settlePermission fuel sessionId runId requestId request decision scope

/-- The request by its parts. -/
theorem resolvePermission_eq (decision : PermissionDecision) (scope : Option PermissionScope) :
    resolvePermission fuel sessionId runId requestId decision scope =
      admitSubmission sessionId >>= fun _ => onStore (.projection sessionId) >>=
        decidePermission fuel sessionId runId requestId decision scope := by
  rw [resolvePermission, admitSubmission, Program.bind_assoc]
  congr 1
  funext shutdown
  cases shutdown with
  | true => rfl
  | false =>
    simp only [Bool.false_eq_true, ↓reduceIte]
    congr 1
    funext _
    congr 1
    funext projection
    rw [decidePermission, SessionProjection.admitResolution]
    cases projection.pendingPermissions.get? requestId with
    | none => rfl
    | some request =>
      change (if request.runId ≠ runId then _ else _) = _
      dsimp only
      split
      · rfl
      · cases request.decision with
        | some existing =>
          dsimp only
          by_cases hsame : existing = decision
          · rw [if_pos hsame, if_pos hsame]
          · rw [if_neg hsame, if_neg hsame]
        | none =>
          dsimp only
          split
          · rfl
          · cases decision <;> rfl

end Request

/-! ## The durable rule -/

/-- The session and the project that a rule names, by its scope. -/
def PermissionScope.target (sessionId : String) (projectId : Option String) :
    PermissionScope → Option (Option String × Option String)
  | .session => some (some sessionId, none)
  | .project => projectId.map fun id => (none, some id)
  | .configuration => some (none, none)
  | .once => none

/-- The rule that an approval leaves. -/
def approvedRule (sessionId : String) (projectId : Option String) (request : PermissionProjection)
    (scope : PermissionScope) (id createdAt : String) : Option PermissionRuleRecord :=
  (scope.target sessionId projectId).map fun (sessionId, projectId) =>
    { id, scope, sessionId, projectId, agentId := request.agentId, toolName := request.toolName
      createdAt }

/-- Only the table of rules differs, and the number of operations. -/
structure World.Grants (rules : List PermissionRuleRecord) (w w' : World) : Prop where
  sound : w.Sound → w'.Sound
  view : ∀ id, w'.view id = w.view id
  db : w'.store.db = { w.store.db with permissionRules := w.store.db.permissionRules ++ rules }

section Rule

variable {env : Surroundings} {w : World} {sessionId : String} {session : SessionSummary}
  {request : PermissionProjection} {scope : PermissionScope}

theorem World.Reads.grants {w' : World} (h : w.Reads w') : w.Grants [] w' where
  sound := h.sound
  view := h.view
  db := by rw [h.db, List.append_nil]

/-- A rule that the table takes. -/
theorem createPermissionRule_run (env : Surroundings) {rule : PermissionRuleRecord}
    (hscope : rule.scope ≠ .once) (hinsertable : w.store.db.ruleInsertable rule = true) :
    ∃ w', (onStore (.createPermissionRule rule)).run (World.handle env) w = (.ok rule, w') ∧
      w.Grants [rule] w' := by
  have hcreate : w.store.db.createPermissionRule rule =
      .ok { w.store.db with permissionRules := w.store.db.permissionRules ++ [rule] } := by
    rw [Database.createPermissionRule, if_neg hscope, if_pos hinsertable]
  have htransact : w.store.transact (·.createPermissionRule rule) = (.ok (), { w.store with
      db := { w.store.db with permissionRules := w.store.db.permissionRules ++ [rule] } }) := by
    simp only [Store.transact, hcreate]
  refine ⟨{ w with
    store := { w.store with
      db := { w.store.db with permissionRules := w.store.db.permissionRules ++ [rule] } }
    clock := w.clock + 1 }, ?_, fun hw => ?_, fun _ => rfl, rfl⟩
  · simp only [onStore, Program.run_call, World.handle, StoreOp.perform, htransact]
    rfl
  · exact ⟨hw.coherent, hw.cached⟩

theorem createPermissionRule_run_error (env : Surroundings) {rule : PermissionRuleRecord}
    (hscope : rule.scope ≠ .once) (hinsertable : w.store.db.ruleInsertable rule = false) :
    (onStore (.createPermissionRule rule)).run (World.handle env) w = (.error .database, w.tick) := by
  have hcreate : w.store.db.createPermissionRule rule = .error .database := by
    rw [Database.createPermissionRule, if_neg hscope, hinsertable]
    rfl
  have htransact : w.store.transact (·.createPermissionRule rule) = (.error .database, w.store) := by
    simp only [Store.transact, hcreate]
  simp only [onStore, Program.run_call, World.handle, StoreOp.perform, htransact]
  rfl

theorem PermissionScope.target_eq_some {projectId : Option String}
    {t : Option String × Option String} :
    scope.target sessionId projectId = some t ↔
      scope = .session ∧ t = (some sessionId, none) ∨
      scope = .configuration ∧ t = (none, none) ∨
      ∃ id, scope = .project ∧ projectId = some id ∧ t = (none, some id) := by
  cases scope <;> cases projectId <;> simp [PermissionScope.target, eq_comm]

/-- What the approval of a durable scope does. -/
theorem approvalRule_eq {t : Option String × Option String}
    (ht : scope.target sessionId session.projectId = some t) :
    approvalRule sessionId session request (some scope) =
      ask .newUuid >>= fun id => ask .readClock >>= fun createdAt =>
        onStore (.createPermissionRule {
          id, scope, sessionId := t.1, projectId := t.2, agentId := request.agentId
          toolName := request.toolName, createdAt }) >>= fun rule => .ret (some rule) := by
  rcases PermissionScope.target_eq_some.mp ht with ⟨rfl, rfl⟩ | ⟨rfl, rfl⟩ | ⟨id, rfl, hid, rfl⟩
  · rfl
  · rfl
  · rw [approvalRule, hid]
    rfl

/-- The table takes a rule for a session and a project that exist. -/
theorem ruleInsertable_of_target {db : Database} {projectId : Option String}
    {t : Option String × Option String} (ht : scope.target sessionId projectId = some t)
    (hsession : db.sessions.contains sessionId = true)
    (hproject : scope = .project → ∀ id ∈ projectId, db.projects.contains id = true)
    {id agentId toolName createdAt : String} (hfresh : ∀ rule ∈ db.permissionRules, rule.id ≠ id) :
    db.ruleInsertable { id, scope, sessionId := t.1, projectId := t.2, agentId, toolName
                        createdAt } = true := by
  have hids : db.permissionRules.all (·.id ≠ id) = true := by
    simpa only [List.all_eq_true, decide_eq_true_eq] using hfresh
  rw [Database.ruleInsertable, hids]
  rcases PermissionScope.target_eq_some.mp ht with ⟨rfl, rfl⟩ | ⟨rfl, rfl⟩ | ⟨id, rfl, hid, rfl⟩
  · simp [hsession]
  · rfl
  · simp [hproject rfl id hid]

/-- The scope of a rule names a project only where the session has one. -/
def PermissionScope.Fits (scope : PermissionScope) (db : Database) (projectId : Option String) :
    Prop :=
  scope = .project → ∃ id, projectId = some id ∧ db.projects.contains id = true

/-- An approval that can leave its rule does. -/
theorem approvalRule_run (env : Surroundings) (request : PermissionProjection)
    (hsession : w.store.db.sessions.contains sessionId = true)
    (hfits : scope.Fits w.store.db session.projectId)
    (hfresh : ∀ rule ∈ w.store.db.permissionRules, rule.id ≠ env.answer w.clock .newUuid) :
    let rule := approvedRule sessionId session.projectId request scope
      (env.answer w.clock .newUuid) (env.answer (w.clock + 1) .readClock)
    ∃ w', (approvalRule sessionId session request (some scope)).run (World.handle env) w =
      (.ok rule, w') ∧ w.Grants rule.toList w' := by
  intro rule
  cases ht : scope.target sessionId session.projectId with
  | none =>
    -- only an approval for once leaves no rule
    have honce : scope = .once := by
      cases scope with
      | once => rfl
      | session => cases ht
      | configuration => cases ht
      | project =>
        obtain ⟨id, hid, -⟩ := hfits rfl
        simp [PermissionScope.target, hid] at ht
    subst honce
    exact ⟨w, rfl, (World.Reads.refl w).grants⟩
  | some t =>
    have hscope : scope ≠ .once := by
      rintro rfl
      cases ht
    have hinsertable : w.tick.tick.store.db.ruleInsertable {
        id := env.answer w.clock .newUuid, scope, sessionId := t.1, projectId := t.2
        agentId := request.agentId, toolName := request.toolName
        createdAt := env.answer (w.clock + 1) .readClock } = true := by
      refine ruleInsertable_of_target ht hsession (fun hproject id hid => ?_) hfresh
      obtain ⟨id', hid', hcontains⟩ := hfits hproject
      cases hid'.symm.trans hid
      exact hcontains
    obtain ⟨w', hrun, hgrants⟩ := createPermissionRule_run env hscope hinsertable
    refine ⟨w', ?_, ?_⟩
    · rw [approvalRule_eq ht, Program.run_bind_ok _ (ask_run env .newUuid w),
        Program.run_bind_ok _ (ask_run env .readClock w.tick)]
      refine (Program.run_bind_ok _ hrun).trans ?_
      simp [rule, approvedRule, ht]
    · have hgrants' : w.Grants [_] w' := ⟨hgrants.sound, hgrants.view, hgrants.db⟩
      simpa [rule, approvedRule, ht] using hgrants'

/-- An approval that cannot leave its rule fails. -/
theorem approvalRule_run_error (env : Surroundings) (sessionId : String)
    (request : PermissionProjection) (hfits : ¬ scope.Fits w.store.db session.projectId) :
    ∃ e w', (approvalRule sessionId session request (some scope)).run (World.handle env) w =
      (.error e, w') := by
  obtain ⟨rfl, hnone⟩ := Classical.not_imp.mp hfits
  rcases hid : session.projectId with _ | id
  · rw [approvalRule, hid]
    exact ⟨_, w, rfl⟩
  · have hmissing : w.store.db.projects.contains id = false := by
      simpa using fun hcontains => hnone ⟨id, hid, hcontains⟩
    have hrefused : ∀ rule : PermissionRuleRecord, rule.scope = .project →
        rule.projectId = some id → (onStore (.createPermissionRule rule)).run (World.handle env)
          w.tick.tick = (.error .database, w.tick.tick.tick) := by
      intro rule hscope hrule
      refine createPermissionRule_run_error env (by simp [hscope]) ?_
      have hmissing' : w.tick.tick.store.db.projects.contains id = false := hmissing
      simp [Database.ruleInsertable, hrule, hmissing']
    rw [approvalRule_eq (by rw [hid]; rfl), Program.run_bind_ok _ (ask_run env .newUuid w),
      Program.run_bind_ok _ (ask_run env .readClock w.tick)]
    exact ⟨.database, _, Program.run_bind_error _ (hrefused _ rfl rfl)⟩

end Rule

/-! ## Executing -/

/-- The events that record an execution. -/
def SemanticEvent.executes : SemanticEvent → Bool
  | .toolExecutionStarted _ _ _ | .toolResult _ _ _ _ _ => true
  | _ => false

/-- The operations in which a call has its effect: native tools, MCP servers and delegation. -/
def ServerOp.effects : ServerOp → Bool
  | .external (.beginEffect _ _) | .external (.openExecutor _) | .external (.executeNative _ _)
  | .external (.mcpCall _ _) | .store (.createSession _ _ _ _) | .store (.createAgentLink _) => true
  | _ => false

/-- The operation executes a call, or records an execution. -/
def Executes (env : Surroundings) (c : World × ServerOp) : Prop :=
  c.2.effects = true ∨ ∃ e, e.executes = true ∧ Commits env c e

/-- The operations that can neither. -/
def ServerOp.idle : ServerOp → Bool
  | .store (.append _ events) => events.all (!·.executes)
  | op => !op.effects

/-- A run that executes nothing. -/
def RunsIdly (env : Surroundings) (w : World) {α : Type} (program : ServerProgram α) : Prop :=
  ∀ c ∈ program.calls (World.handle env) w, ¬ Executes env c

section Idle

variable {env : Surroundings} {w w' : World} {α β : Type} {p : ServerProgram α}
  {f : α → ServerProgram β} {sessionId runId : String}

theorem not_executes {c : World × ServerOp} (h : c.2.idle = true) : ¬ Executes env c := by
  rintro (heffects | ⟨e, he, sessionId, events, records, hop, hmem, -⟩)
  · unfold ServerOp.idle at h
    split at h
    · next hop =>
      rw [hop] at heffects
      cases heffects
    · simp [heffects] at h
  · rw [hop] at h
    have hidle := List.all_eq_true.mp h e hmem
    simp [he] at hidle

theorem ServerOp.idle_of_routine {op : ServerOp} (h : op.routine = true) : op.idle = true := by
  unfold ServerOp.routine at h
  split at h
  · rfl
  · rfl
  · rfl
  · rfl
  · cases h

theorem runsIdly_of_only (h : p.Only fun op : ServerOp => op.idle = true) :
    RunsIdly env w p :=
  fun _ hc => not_executes (h.mem_calls hc)

theorem runsIdly_bind_ok {a : α} (hrun : p.run (World.handle env) w = (.ok a, w'))
    (hp : p.Only fun op : ServerOp => op.idle = true) :
    RunsIdly env w (p >>= f) ↔ RunsIdly env w' (f a) := by
  simp only [RunsIdly, Program.calls_bind, hrun, List.forall_mem_append]
  exact and_iff_right (runsIdly_of_only hp)

theorem runsIdly_bind_error {e : StoreError} (hrun : p.run (World.handle env) w = (.error e, w'))
    (hp : p.Only fun op : ServerOp => op.idle = true) : RunsIdly env w (p >>= f) := by
  simp only [RunsIdly, Program.calls_bind, hrun, List.append_nil]
  exact runsIdly_of_only hp

theorem admitSubmission_only :
    (admitSubmission sessionId).Only fun op : ServerOp => op.idle = true := by
  refine only_ask rfl fun shutdown => ?_
  cases shutdown with
  | true => exact .fail _
  | false =>
    refine only_onStore rfl fun session => ?_
    cases session.projectId with
    | none => exact .ret _
    | some projectId =>
      refine only_ask rfl fun deleting => ?_
      cases deleting with
      | true => exact .fail _
      | false => exact .ret _

theorem approvalRule_only {session : SessionSummary} {request : PermissionProjection}
    {scope : PermissionScope} : (approvalRule sessionId session request (some scope)).Only
      fun op : ServerOp => op.idle = true := by
  cases ht : scope.target sessionId session.projectId with
  | some t =>
    rw [approvalRule_eq ht]
    exact only_ask rfl fun _ => only_ask rfl fun _ => only_onStore rfl fun _ => .ret _
  | none =>
    cases scope with
    | once => exact .ret _
    | session => cases ht
    | configuration => cases ht
    | project =>
      rw [PermissionScope.target, Option.map_eq_none_iff] at ht
      rw [approvalRule, ht]
      exact .fail _

theorem loadRun_only : (loadRun sessionId runId).Only fun op : ServerOp => op.idle = true :=
  only_onStore rfl fun _ => only_expect fun _ => .ret _

theorem sessionProject_only :
    (sessionProject sessionId).Only fun op : ServerOp => op.idle = true := by
  refine only_onStore rfl fun session => ?_
  cases session.projectId with
  | none => exact .ret _
  | some projectId => exact only_onStore rfl fun _ => .ret _

theorem resumeIfToolResultsReady_only :
    (resumeIfToolResultsReady sessionId runId).Only fun op : ServerOp => op.idle = true := by
  refine only_loadRun rfl fun loaded => iteInduction (fun _ => ?_) fun _ => .ret _
  exact (only_append (fun _ => ServerOp.idle_of_routine) rfl).bind fun _ => .ret _

end Idle

/-! ## Approvals that execute nothing -/

namespace SessionProjection

variable {p q : SessionProjection} {requestId : String} {request : PermissionProjection}

/-- A call that the approval of a request leaves to execute. -/
def executable (p : SessionProjection) (request : PermissionProjection)
    (call : ToolCallProjection) : Bool :=
  p.claimable request.runId call ||
    (call.native && call.result.isNone && call.executionId.isNone &&
      request.callId = some call.callId)

/-- An open request can be approved; nothing else changes. -/
theorem applyAll_approved (hrequest : p.pendingPermissions.get? requestId = some request)
    (hopen : request.decision = none) (source : Option PermissionDecisionSource)
    (scope : Option PermissionScope) (ruleId reason : Option String) :
    ∃ q, p.applyAll [.permissionResolved requestId .allow source scope ruleId reason] = .ok q ∧
      q.runs = p.runs ∧ q.pendingPermissions =
        p.pendingPermissions.insert requestId { request with decision := some .allow } := by
  let eventId := p.state.lastEventId.getD 0 + 1
  let q : SessionProjection := { p with
    state := { p.state with lastEventId := some eventId }
    pendingPermissions :=
      p.pendingPermissions.insert requestId { request with decision := some .allow } }
  have happly : p.apply eventId (.permissionResolved requestId .allow source scope ruleId reason) =
      .ok q := by
    refine apply_eq_ok.mpr ⟨_, rfl, ?_⟩
    simp only [applyEvent, hrequest, hopen]
    rfl
  exact ⟨q, applyAll_cons_eq_ok.mpr ⟨q, happly, rfl⟩, rfl, rfl⟩

/-- A native call can be claimed that has no other claim. -/
theorem applyAll_claimed {runId callId : String} (executionId : String) {run : RunProjection}
    {call : ToolCallProjection} (hrun : p.runs.get? runId = some run)
    (hcall : run.toolCalls.get? callId = some call) (hnative : call.native = true)
    (hfree : call.executionId = none ∨ call.executionId = some executionId) :
    ∃ q, p.applyAll [.toolExecutionStarted runId callId executionId] = .ok q := by
  cases happly : p.applyAll [.toolExecutionStarted runId callId executionId] with
  | ok q => exact ⟨q, rfl⟩
  | error e =>
    rcases hfree with hfree | hfree <;>
      simp [applyAll, apply, applyEvent, updateRun, RunProjection.updateCall, hrun, hcall, hnative,
        hfree, SessionState.apply, SessionState.applyPhase, Except.bind, Except.map] at happly

/-- What may be claimed then. -/
theorem claimable_approved (hrequest : p.pendingPermissions.get? requestId = some request)
    (hopen : request.decision = none) (hpermissions : q.pendingPermissions =
      p.pendingPermissions.insert requestId { request with decision := some .allow })
    (call : ToolCallProjection) :
    q.claimable request.runId call = p.executable request call := by
  have hany : (q.pendingPermissions.values.any fun permission =>
      permission.runId = request.runId && permission.callId = some call.callId &&
        permission.decision = some .allow) =
      ((p.pendingPermissions.values.any fun permission =>
        permission.runId = request.runId && permission.callId = some call.callId &&
          permission.decision = some .allow) || request.callId = some call.callId) := by
    rw [Bool.eq_iff_iff]
    simp only [List.any_eq_true, Bool.or_eq_true, Bool.and_eq_true, decide_eq_true_eq,
      SortedMap.mem_values_iff, hpermissions]
    constructor
    · rintro ⟨permission, ⟨id, hid⟩, ⟨hrun, hcall⟩, hallow⟩
      by_cases hsame : id = requestId
      · subst hsame
        rw [SortedMap.get?_insert_self] at hid
        cases hid
        exact .inr hcall
      · rw [SortedMap.get?_insert_of_ne _ _ hsame] at hid
        exact .inl ⟨permission, ⟨id, hid⟩, ⟨hrun, hcall⟩, hallow⟩
    · rintro (⟨permission, ⟨id, hid⟩, hmatch, hallow⟩ | hcall)
      · refine ⟨permission, ⟨id, ?_⟩, hmatch, hallow⟩
        rw [SortedMap.get?_insert_of_ne _ _ ?_, hid]
        rintro rfl
        cases hrequest.symm.trans hid
        rw [hopen] at hallow
        cases hallow
      · exact ⟨_, ⟨requestId, SortedMap.get?_insert_self ..⟩, ⟨rfl, hcall⟩, rfl⟩
  rw [claimable, executable, claimable, hany, Bool.and_or_distrib_left]

end SessionProjection

/-- The approval is recorded, and the approved calls are looked for: the server is up, the project
of the session exists and is not being deleted, and the request is open. -/
structure ApprovalTaken (env : Surroundings) (w : World) (sessionId : String)
    (request : PermissionProjection) (scope : PermissionScope) : Prop where
  up : env.answer w.clock .isShutdown = false
  kept : env.Mutable w.tick sessionId
  undecided : request.decision = none
  placed : ∀ session, w.store.db.getSession sessionId = .ok session → scope = .project →
    session.projectId.isSome = true
  project : ∀ session projectId, w.store.db.getSession sessionId = .ok session →
    session.projectId = some projectId → w.store.db.projects.contains projectId = true

section Approval

variable {env : Surroundings} {w : World} {sessionId requestId runId : String}
  {p : SessionProjection} {run : RunProjection} {request : PermissionProjection}
  {scope : PermissionScope} {session : SessionSummary}

theorem sessionProject_run (env : Surroundings)
    (hsession : w.store.db.getSession sessionId = .ok session)
    (hproject : ∀ id, session.projectId = some id → w.store.db.projects.contains id = true) :
    ∃ project w', (sessionProject sessionId).run (World.handle env) w = (.ok project, w') ∧
      w.Reads w' := by
  rw [sessionProject, Program.run_bind_ok _ (getSession_run env hsession)]
  cases hid : session.projectId with
  | none => exact ⟨none, w.tick, rfl, World.reads_tick w⟩
  | some projectId =>
    obtain ⟨project, hget⟩ := (SortedMap.contains_iff _ _).mp (hproject projectId hid)
    have hrun : (onStore (.getProject projectId)).run (World.handle env) w.tick =
        (.ok project, w.tick.tick) := by
      have hfound : w.tick.store.db.getProject projectId = .ok project := by
        rw [Database.getProject, show w.tick.store.db.projects.get? projectId = some project from hget]
      simp only [onStore, Program.run_call, World.handle, StoreOp.perform, hfound]
      rfl
    exact ⟨some project, w.tick.tick, Program.run_bind_ok _ hrun,
      (World.reads_tick w).trans (World.reads_tick _)⟩

theorem sessionProject_run_error (env : Surroundings)
    (hsession : w.store.db.getSession sessionId = .ok session)
    (hproject : ¬ ∀ id ∈ session.projectId, w.store.db.projects.contains id = true) :
    ∃ e w', (sessionProject sessionId).run (World.handle env) w = (.error e, w') := by
  simp only [not_forall] at hproject
  obtain ⟨id, hid, hmissing⟩ := hproject
  have hnone : w.store.db.projects.get? id = none :=
    (SortedMap.contains_eq_false_iff _ _).mp (by simpa using hmissing)
  have hrun : (onStore (.getProject id)).run (World.handle env) w.tick =
      (.error (.projectNotFound id), w.tick.tick) := by
    have hnone : w.tick.store.db.getProject id = .error (.projectNotFound id) := by
      rw [Database.getProject, show w.tick.store.db.projects.get? id = none from hnone]
    simp only [onStore, Program.run_call, World.handle, StoreOp.perform, hnone]
    rfl
  rw [sessionProject, Program.run_bind_ok _ (getSession_run env hsession), Option.mem_def.mp hid]
  exact ⟨_, _, Program.run_bind_error _ hrun⟩

/-- Claiming a call that may be claimed is an execution. -/
theorem claimAndExecute_executes (hw : w.Sound) (hview : w.view sessionId = some p)
    (hrun : p.runs.get? runId = some run) {call : ToolCallProjection}
    (hcall : call ∈ run.toolCalls.values) (hclaimable : p.claimable runId call = true)
    (project : Option Project) {α : Type} (f : Unit → ServerProgram α) :
    ¬ RunsIdly env w (claimAndExecute sessionId runId project call >>= f) := by
  intro hidle
  simp only [SessionProjection.claimable, Bool.and_eq_true, Option.isNone_iff_eq_none] at hclaimable
  obtain ⟨⟨⟨hnative, -⟩, hfree⟩, -⟩ := hclaimable
  obtain ⟨callId, hget⟩ := (SortedMap.mem_values_iff _).mp hcall
  have hkeyed := (Store.Sound.wellKeyed_view hw hview).toolCalls hrun hget
  subst hkeyed
  obtain ⟨q, happly⟩ := SessionProjection.applyAll_claimed (env.answer w.clock .newUuid) hrun
    hget hnative (.inl hfree)
  obtain ⟨records, w', hstored, -⟩ := storeAppend_run env (w := w.tick) hw hview happly
  rw [onStore, Program.run_call, Program.run_ofExcept] at hstored
  rw [claimAndExecute, Program.bind_assoc,
    runsIdly_bind_ok (ask_run env .newUuid w) (.call rfl fun _ => .ret _)] at hidle
  exact hidle _ List.mem_cons_self (.inr ⟨_, rfl, sessionId, _, records, rfl, List.mem_singleton_self _,
    congrArg Prod.fst hstored⟩)

/-- After the approval, calls are executed where one may be claimed. -/
theorem executeApproved_idle_iff (fuel : Nat) (hw : w.Sound) (hview : w.view sessionId = some p)
    (hrun : p.runs.get? runId = some run)
    (hsession : w.store.db.getSession sessionId = .ok session)
    (hproject : ∀ id, session.projectId = some id → w.store.db.projects.contains id = true)
    {f : Bool → ServerProgram Unit} (hf : ∀ ready, (f ready).Only fun op : ServerOp => op.idle = true) :
    RunsIdly env w (executeApprovedNativeCalls (fuel + 1) sessionId runId >>= f) ↔
      ∀ call ∈ run.toolCalls.values, p.claimable runId call = false := by
  obtain ⟨project, w₁, hfound, hreads₁⟩ := sessionProject_run env hsession hproject
  obtain ⟨w₂, hload, hreads₂⟩ := loadRun_run env (hreads₁.sound hw)
    ((hreads₁.view sessionId).trans hview) hrun
  rw [executeApprovedNativeCalls, Program.bind_assoc, runsIdly_bind_ok hfound sessionProject_only,
    executeApprovedCalls, Program.bind_assoc, Program.bind_assoc,
    runsIdly_bind_ok hload loadRun_only]
  have hrest : ∀ {α : Type} {k : ServerProgram α}, (k.Only fun op : ServerOp => op.idle = true) →
      RunsIdly env w₂ k := runsIdly_of_only
  dsimp only
  cases hfind : run.toolCalls.values.find? (p.claimable runId) with
  | none =>
    refine iff_of_true (hrest (resumeIfToolResultsReady_only.bind hf)) fun call hcall => ?_
    simpa using List.find?_eq_none.mp hfind call hcall
  | some call =>
    have hcall := List.mem_of_find?_eq_some hfind
    have hclaimable := List.find?_some hfind
    have hview₂ := (hreads₂.view sessionId).trans ((hreads₁.view sessionId).trans hview)
    refine iff_of_false ?_ fun hnone => ?_
    · dsimp only
      rw [Program.bind_assoc]
      exact claimAndExecute_executes (hreads₂.sound (hreads₁.sound hw)) hview₂ hrun hcall hclaimable
        project _
    · rw [hnone call hcall] at hclaimable
      cases hclaimable

theorem settlePermission_idle_iff (fuel : Nat) (scope : PermissionScope) (hw : w.Sound) (hview : w.view sessionId = some p)
    (hrun : p.runs.get? request.runId = some run)
    (hrequest : p.pendingPermissions.get? requestId = some request)
    (hopen : request.decision = none) (hsession : w.store.db.getSession sessionId = .ok session)
    (hfresh : ∀ n, ∀ rule ∈ w.store.db.permissionRules, rule.id ≠ env.answer n .newUuid) :
    RunsIdly env w (settlePermission (fuel + 1) sessionId request.runId requestId request .allow
        (some scope)) ↔
      ((scope = .project → session.projectId.isSome = true) →
        (∀ id ∈ session.projectId, w.store.db.projects.contains id = true) →
          ∀ call ∈ run.toolCalls.values, p.executable request call = false) := by
  have hexists : w.store.db.sessions.contains sessionId = true := by
    obtain ⟨s, hs, -⟩ := Store.Sound.coherent_view hw hview
    exact (SortedMap.contains_iff _ _).mpr ⟨s, hs⟩
  rw [settlePermission, runsIdly_bind_ok (getSession_run env hsession)
    (.call rfl fun _ => .ofExcept _)]
  by_cases hfits : scope.Fits w.store.db session.projectId
  swap
  · obtain ⟨e, w₁, hfail⟩ := approvalRule_run_error (w := w.tick) env sessionId request hfits
    refine iff_of_true (runsIdly_bind_error hfail approvalRule_only) fun hplaced hproject => ?_
    refine absurd (fun hscope => ?_) hfits
    obtain ⟨id, hid⟩ := Option.isSome_iff_exists.mp (hplaced hscope)
    exact ⟨id, hid, hproject id hid⟩
  obtain ⟨w₁, hrule, hgrants⟩ := approvalRule_run (w := w.tick) env request hexists hfits
    (hfresh _)
  obtain ⟨q, happly, hruns, hpermissions⟩ := SessionProjection.applyAll_approved hrequest hopen
    (some .requestApproval) (some scope) ((approvedRule sessionId session.projectId request scope
      (env.answer w.tick.clock .newUuid) (env.answer (w.tick.clock + 1) .readClock)).map (·.id)) none
  obtain ⟨records, w₂, happended, hsound₂, hview₂, htouches⟩ := appendMany_run env
    (hgrants.sound hw) ((hgrants.view sessionId).trans hview) happly
  have hsession₁ : w₁.store.db.getSession sessionId = .ok session := by
    rw [hgrants.db]
    exact hsession
  obtain ⟨session₂, hsession₂, hsame⟩ := htouches.getSession hsession₁
  have hprojects : w₂.store.db.projects = w.store.db.projects := by
    rw [htouches.store.tables, hgrants.db]
    rfl
  rw [runsIdly_bind_ok hrule approvalRule_only]
  change RunsIdly env w₁ (appendMany sessionId _ >>= fun _ =>
    executeApprovedNativeCalls (fuel + 1) sessionId request.runId >>= fun ready =>
      if ready then spawnWorker sessionId else .ret ()) ↔ _
  rw [runsIdly_bind_ok happended (only_appendMany (fun _ => ServerOp.idle_of_routine) rfl)]
  have hwake : ∀ ready : Bool, (if ready then spawnWorker sessionId else .ret () :
      ServerProgram Unit).Only fun op : ServerOp => op.idle = true := by
    intro ready
    refine iteInduction (fun _ => only_spawnWorker fun _ => ServerOp.idle_of_routine) fun _ => .ret _
  by_cases hproject : ∀ id ∈ session.projectId, w.store.db.projects.contains id = true
  · rw [executeApproved_idle_iff fuel hsound₂ hview₂ (hruns ▸ hrun) hsession₂ (by
      rw [hsame, hprojects]
      exact hproject) hwake]
    simp only [SessionProjection.claimable_approved hrequest hopen hpermissions]
    refine ⟨fun h _ _ => h, fun h => h (fun hscope => ?_) hproject⟩
    obtain ⟨id, hid, -⟩ := hfits hscope
    rw [hid]
    rfl
  · refine iff_of_true ?_ fun _ h => absurd h hproject
    obtain ⟨e, w₃, hmissing⟩ := sessionProject_run_error env hsession₂ (by
      rw [hsame, hprojects]
      exact hproject)
    rw [executeApprovedNativeCalls, Program.bind_assoc]
    exact runsIdly_bind_error hmissing sessionProject_only

/-- **An approval executes nothing** if and only if it is not taken or no call of the run is left to
execute. The status of the run plays no part. -/
theorem approval_executes_nothing_iff (fuel : Nat) (hw : w.Sound)
    (hview : w.view sessionId = some p) (hrun : p.runs.get? request.runId = some run)
    (hrequest : p.pendingPermissions.get? requestId = some request)
    (hfresh : ∀ n, ∀ rule ∈ w.store.db.permissionRules, rule.id ≠ env.answer n .newUuid) :
    RunsIdly env w
        (resolvePermission (fuel + 1) sessionId request.runId requestId .allow (some scope)) ↔
      (ApprovalTaken env w sessionId request scope →
        ∀ call ∈ run.toolCalls.values, p.executable request call = false) := by
  obtain ⟨session, hsession⟩ := hw.getSession_view hview
  rw [resolvePermission_eq]
  -- each check that fails ends the request before anything is executed
  by_cases hup : env.answer w.clock .isShutdown = false
  swap
  · have hfail : (admitSubmission sessionId).run (World.handle env) w =
        (.error .shuttingDown, w.tick) := by
      rw [admitSubmission, Program.run_bind_ok _ (ask_run env .isShutdown w), 
        eq_true_of_ne_false hup]
      rfl
    exact iff_of_true (runsIdly_bind_error hfail admitSubmission_only) fun h => absurd h.up hup
  by_cases hkept : env.Mutable w.tick sessionId
  swap
  · obtain ⟨e, w₁, hfail⟩ := (admitSubmission_run env hw hview hup).2 hkept
    exact iff_of_true (runsIdly_bind_error hfail admitSubmission_only) fun h => absurd h.kept hkept
  obtain ⟨w₁, hreads₁, hadmit⟩ := (admitSubmission_run env hw hview hup).1 hkept
  obtain ⟨w₂, hprojection, hreads₂⟩ := projection_run env (hreads₁.sound hw)
    ((hreads₁.view sessionId).trans hview)
  have hreads := hreads₁.trans hreads₂
  rw [runsIdly_bind_ok hadmit admitSubmission_only,
    runsIdly_bind_ok hprojection (.call rfl fun _ => .ofExcept _), decidePermission,
    SessionProjection.admitResolution, hrequest]
  dsimp only
  rw [if_neg (by simp)]
  cases hdecision : request.decision with
  | some existing =>
    refine iff_of_true (runsIdly_of_only ?_) fun h => ?_
    · dsimp only
      by_cases hsame : existing = .allow
      · rw [if_pos hsame]
        exact .ret _
      · rw [if_neg hsame]
        exact .fail _
    · rw [h.undecided] at hdecision
      cases hdecision
  | none =>
    have hsettle := settlePermission_idle_iff fuel scope (hreads.sound hw)
      ((hreads.view sessionId).trans hview) hrun hrequest hdecision (hreads.db ▸ hsession)
      (hreads.db ▸ hfresh)
    rw [hreads.db] at hsettle
    refine hsettle.trans ⟨fun h htaken => h (htaken.placed session hsession)
      (fun id hid => htaken.project session id hsession hid), fun h hplaced hproject => ?_⟩
    refine h ⟨hup, hkept, hdecision, ?_, ?_⟩
    · intro session' hsession'
      cases hsession.symm.trans hsession'
      exact hplaced
    · intro session' projectId hsession' hid
      cases hsession.symm.trans hsession'
      exact hproject projectId hid

/-- A run with a call of an MCP tool that waits for permission, and what comes after. -/
def askedEvents (later : List SemanticEvent) : List SemanticEvent :=
  [.runQueued "r" none "p" "m" (RunRequest.toJson {
      provider := "p", model := "m", input := .str "hello", agent := none, variant := none
      body := .obj [] }),
    .sessionPhaseChanged .created .running none, .runStarted "r" "a" 1,
    .toolCallEmitted "r" "m" "c" "agent" "lookup" (.obj []) "" true, .runRequiresAction "r" ["c"],
    .permissionRequested "q" "r" (some "c") "agent" "lookup" (.obj [])] ++ later

/-- The run is cancelled while its request is open. -/
def cancelledWorld : World := World.holding (askedEvents [.runCancelled "r" none])

/-- The call of the run that was cancelled is executed and answered once it is approved. -/
theorem approval_executes_cancelled :
    cancelledWorld.Sound ∧
      (cancelledWorld.view "s").map (fun p => ((p.runs.get? "r").map (·.status),
        (p.pendingPermissions.get? "q").map fun request => (request.runId, request.decision))) =
          some (some .cancelled, some ("r", none)) ∧
      ((resolvePermission 2 "s" "r" "q" .allow (some .once)).calls (World.handle (.plain {}))
        cancelledWorld).any (·.2.effects) = true ∧
      (((resolvePermission 2 "s" "r" "q" .allow (some .once)).run (World.handle (.plain {}))
        cancelledWorld).2.view "s").bind (fun p => (p.call? "r" "c").bind (·.result)) =
          some .null ∧
      ¬ RunsIdly (.plain {}) cancelledWorld
        (resolvePermission 2 "s" "r" "q" .allow (some .once)) := by
  have hcall : ((resolvePermission 2 "s" "r" "q" .allow (some .once)).calls
      (World.handle (.plain {})) cancelledWorld).any (·.2.effects) = true := by
    decide +kernel
  refine ⟨World.holding_sound _, by decide +kernel, hcall, by decide +kernel, ?_⟩
  intro hidle
  obtain ⟨c, hc, heffects⟩ := List.any_eq_true.mp hcall
  exact hidle c hc (.inl heffects)

/-- The run is cancelled after its call was answered. -/
def answeredThenCancelled : World :=
  World.holding (askedEvents
    [.toolResult "r" "c" "agent" "lookup" .null, .runCancelled "r" none])

/-- No call is left, and the request can be approved. -/
theorem approval_executes_nothing_answered :
    RunsIdly (.plain {}) answeredThenCancelled
      (resolvePermission 2 "s" "r" "q" .allow (some .session)) := by
  have hstate : (answeredThenCancelled.view "s").bind (fun p => (p.runs.get? "r").bind fun run =>
      (p.pendingPermissions.get? "q").map fun request =>
        (request.runId, run.toolCalls.values.all (!p.executable request ·))) =
      some ("r", true) := by
    decide +kernel
  obtain ⟨p, hp, hstate⟩ := Option.bind_eq_some_iff.mp hstate
  obtain ⟨run, hrun, hstate⟩ := Option.bind_eq_some_iff.mp hstate
  obtain ⟨request, hrequest, hstate⟩ := Option.map_eq_some_iff.mp hstate
  obtain ⟨hof, hnone⟩ := Prod.mk.inj hstate
  rw [← hof] at hrun ⊢
  refine (approval_executes_nothing_iff 1 (World.holding_sound _) hp hrun hrequest ?_).mpr ?_
  · intro n rule hrule
    exact absurd hrule List.not_mem_nil
  · intro _ call hcall
    simpa using List.all_eq_true.mp hnone call hcall

end Approval

end Piqo
