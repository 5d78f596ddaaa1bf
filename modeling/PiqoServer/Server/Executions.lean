import Mathlib
import PiqoServer.Library.Licences
import PiqoServer.Core.Repetition
import PiqoServer.Server.Approvals
import PiqoServer.Server.Iterations
import PiqoServer.Server.Work

/-!
# Executing a call once

Any number of requests and workers of the server run at a time, and take turns at every operation.
Two of them may find the same approved call, since `execute_approved_native_calls`
(`piqo-server/src/supervisor.rs`) looks at a projection that may be old by the time it claims. The
server may be restarted in between, and opens the database it left.

A call is claimed with a random id. The claim of another id is refused, and only the task whose
claim was recorded goes on to the effect of the call.

## Main definitions

* `CallKey`: a call of a run of a session
* `licensing`: the claims of calls as licences
* `ServerOp.calm`: the operations that neither claim a call nor begin its effect

## Main results

* `handle_session`: what an operation does to a session
* `licensing_lawful`: the store respects the licences
* `ServerWork.follows`: whatever is under way acts under licences
* `effects_begin_once`: the effect of a call begins once at most, over all schedules and restarts
-/

namespace Piqo

/-! ## Calm programs -/

/-- The event claims a call. -/
def SemanticEvent.claims : SemanticEvent → Bool
  | .toolExecutionStarted _ _ _ => true
  | _ => false

/-- The operations that neither claim a call nor begin its effect. -/
def ServerOp.calm : ServerOp → Bool
  | .store (.append _ events) => events.all (!·.claims)
  | .external (.beginEffect _ _) => false
  | _ => true

theorem SemanticEvent.claims_of_executes {e : SemanticEvent} (h : e.executes = false) :
    e.claims = false := by
  cases e <;> first | rfl | cases h

theorem SemanticEvent.claims_of_delegates {e : SemanticEvent} (h : e.delegates = true) :
    e.claims = false := by
  cases e <;> first | rfl | cases h

theorem SemanticEvent.claims_of_delivers {e : SemanticEvent} (h : e.delivers = true) :
    e.claims = false := by
  cases e <;> first | rfl | cases h

/-- Events of which none claims a call. -/
theorem SemanticEvent.all_claims {events : List SemanticEvent}
    (h : ∀ e ∈ events, e.claims = false) : events.all (!·.claims) = true := by
  refine List.all_eq_true.mpr fun e he => ?_
  rw [h e he]
  rfl

theorem ServerOp.calm_of_routine {op : ServerOp} (h : op.routine = true) : op.calm = true := by
  unfold ServerOp.routine at h
  split at h
  · rfl
  · rfl
  · rfl
  · rfl
  · cases h

theorem ServerOp.calm_of_idle {op : ServerOp} (h : op.idle = true) : op.calm = true := by
  unfold ServerOp.calm
  split
  · refine SemanticEvent.all_claims fun e he => SemanticEvent.claims_of_executes ?_
    simpa using List.all_eq_true.mp h e he
  · cases h
  · rfl

theorem ServerOp.calm_of_delegates {op : ServerOp} (h : op.delegates = true) : op.calm = true := by
  unfold ServerOp.calm
  split
  · exact SemanticEvent.all_claims fun e he =>
      SemanticEvent.claims_of_delegates (List.all_eq_true.mp h e he)
  · cases h
  · rfl

theorem Turn.Records.claims {t t' : Turn} {e : SemanticEvent} (h : t.Records e t') :
    e.claims = false := by
  cases h with
  | attempt he => cases e <;> first | rfl | cases he
  | context he => cases e <;> first | rfl | cases he
  | _ => rfl

theorem Activity.Records.claims {a b : Activity} {e : SemanticEvent} (h : a.Records e b) :
    e.claims = false := by
  cases h with
  | turn h => exact h.claims
  | stopped he => cases e <;> first | rfl | cases he
  | _ => rfl

/-- The operations of an iteration. -/
theorem Activity.calm_of_allows {sessionId : String} {a : Activity} {op : ServerOp}
    (h : Activity.allows sessionId a op) : op.calm = true := by
  unfold ServerOp.calm
  split
  · refine SemanticEvent.all_claims fun e he => ?_
    rcases h with ⟨-, e', b, rfl, hrecord⟩ | ⟨-, hdelivers⟩
    · cases List.mem_singleton.mp he
      exact (Activity.records_of_record hrecord).claims
    · exact SemanticEvent.claims_of_delivers (hdelivers e he)
  · exact h.elim
  · rfl

/-- A program that neither claims a call nor begins its effect. -/
abbrev Calm {α : Type} (p : ServerProgram α) : Prop := p.Only fun op : ServerOp => op.calm = true

section Calm

variable {α β : Type} {sessionId runId callId : String} (fuel : Nat)

theorem Calm.of_idle {p : ServerProgram α} (h : p.Only fun op : ServerOp => op.idle = true) :
    Calm p :=
  h.mono fun _ => ServerOp.calm_of_idle

theorem calm_append {e : SemanticEvent} (he : e.claims = false) : Calm (append sessionId e) :=
  only_append (fun _ => ServerOp.calm_of_routine) (SemanticEvent.all_claims (by simpa using he))

theorem calm_appendMany {events : List SemanticEvent} (h : ∀ e ∈ events, e.claims = false) :
    Calm (appendMany sessionId events) :=
  only_appendMany (fun _ => ServerOp.calm_of_routine) (SemanticEvent.all_claims h)

theorem calm_spawnWorker : Calm (spawnWorker sessionId) :=
  only_spawnWorker fun _ => ServerOp.calm_of_routine

theorem calm_ensureSessionMutable : Calm (ensureSessionMutable sessionId) := by
  refine only_onStore rfl fun session => ?_
  cases session.projectId with
  | none => exact .ret _
  | some projectId => exact only_ask rfl fun _ => iteInduction (fun _ => .fail _) fun _ => .ret _

theorem calm_resolveProvider {name : String} : Calm (resolveProvider name) := by
  refine only_ask rfl fun reply => ?_
  rcases reply with (_ | _) | _ <;> trivial

theorem calm_loadRun : Calm (loadRun sessionId runId) := Calm.of_idle loadRun_only

theorem calm_appendQueued {events : List SemanticEvent} (h : ∀ e ∈ events, e.claims = false) :
    Calm (appendQueued sessionId runId events) := by
  refine (calm_appendMany h).attempt.bind fun outcome => ?_
  cases outcome with
  | ok records => exact .ret _
  | error e => exact only_ask rfl fun _ => .fail _

theorem calm_reserveAdmission : Calm (reserveAdmission sessionId runId) := by
  refine only_ask rfl fun reply => ?_
  cases reply <;> trivial

theorem calm_queueRun {request : RunRequest} : Calm (queueRun sessionId request) := by
  refine only_ask rfl fun _ => iteInduction (fun _ => .fail _) fun _ => ?_
  refine calm_ensureSessionMutable.bind fun _ => only_onStore rfl fun _ => ?_
  refine iteInduction (fun _ => .fail _) fun _ => iteInduction (fun _ => .fail _) fun _ => ?_
  refine calm_resolveProvider.bind fun _ => only_ask rfl fun _ => ?_
  refine calm_reserveAdmission.bind fun _ => (calm_appendQueued ?_).bind fun _ =>
    calm_spawnWorker.bind fun _ => .ret _
  rintro e he
  cases List.mem_singleton.mp he
  rfl

theorem calm_resume : Calm (resume sessionId) := by
  refine only_ask rfl fun _ => iteInduction (fun _ => .fail _) fun _ => ?_
  refine calm_ensureSessionMutable.bind fun _ => only_onStore rfl fun _ => ?_
  exact iteInduction (fun _ => .fail _) fun _ => (calm_append rfl).bind fun _ => calm_spawnWorker

theorem calm_retry : Calm (retry sessionId runId) := by
  refine only_ask rfl fun _ => iteInduction (fun _ => .fail _) fun _ => ?_
  refine calm_ensureSessionMutable.bind fun _ => calm_loadRun.bind fun loaded => ?_
  refine iteInduction (fun _ => .fail _) fun _ => only_expect fun _ => only_ask rfl fun _ => ?_
  refine calm_reserveAdmission.bind fun _ => only_onStore rfl fun projection => ?_
  refine (calm_appendQueued ?_).bind fun _ => calm_spawnWorker.bind fun _ => .ret _
  rintro e he
  rcases List.mem_append.mp he with he | he
  · cases List.mem_singleton.mp he
    rfl
  · split at he
    · cases List.mem_singleton.mp he
      rfl
    · cases he

theorem calm_submitToolResult {result : Json} :
    Calm (submitToolResult sessionId runId callId result) := by
  refine (Calm.of_idle admitSubmission_only).bind fun _ => Program.Only.bind ?_ fun ready =>
    iteInduction (fun _ => calm_spawnWorker) fun _ => .ret _
  refine only_onStore rfl fun p => (Program.Only.ofExcept _).bind fun admitted => ?_
  rcases admitted with _ | ⟨call, allReady⟩
  · exact .ret _
  · refine (calm_appendMany fun e he => ?_).bind fun _ => .ret _
    rcases List.mem_append.mp he with he | he
    · cases List.mem_singleton.mp he
      rfl
    · split at he
      · cases List.mem_singleton.mp he
        rfl
      · cases he

/-- A worker neither claims a call nor begins its effect. -/
theorem calm_processSession (fuel : Nat) (sessionId : String) :
    Calm (processSession fuel sessionId) := by
  induction fuel generalizing sessionId with
  | zero => exact .fail _
  | succ fuel ih =>
    have hiteration : Calm (iteration fuel sessionId) :=
      (iteration_follows fuel).map (fun _ => ()) (fun _ _ => Activity.calm_of_allows)
        (fun _ _ _ _ => rfl) fun _ _ _ => trivial
    refine hiteration.bind fun next => ?_
    cases next with
    | done => exact .ret _
    | again => exact ih sessionId
    | parentFirst parent => exact (ih parent).bind fun _ => ih sessionId

theorem calm_deliverChildResult : Calm (deliverChildResult sessionId runId) := by
  refine only_onStore rfl fun links => ?_
  split
  · exact .ret _
  refine calm_loadRun.bind fun loaded => ?_
  dsimp only
  split
  · exact .ret _
  refine Program.Only.bind ?_ fun _ => only_onStore rfl fun parent =>
    iteInduction (fun _ => .ret _) fun _ => only_expect fun run => ?_
  · exact iteInduction (fun _ => .ret _) fun _ => (calm_append rfl).bind fun _ => .ret _
  · refine (calm_appendMany fun e he => ?_).bind fun _ => .ret _
    rcases List.mem_append.mp he with he | he
    · fin_cases he <;> rfl
    · split at he
      · cases List.mem_singleton.mp he
        rfl
      · cases he

theorem calm_cancelChildren {cancelChild : String → String → ServerProgram Unit}
    (h : ∀ sessionId runId, Calm (cancelChild sessionId runId)) (links : List AgentLinkRecord) :
    Calm (cancelChildren cancelChild links) := by
  induction links with
  | nil => exact .ret _
  | cons link links ih =>
    refine (h _ _).attempt.bind fun outcome => ?_
    split
    · exact .fail _
    · exact .fail _
    · exact ih

/-- A cancellation neither claims a call nor begins its effect. -/
theorem calm_cancel (fuel : Nat) (sessionId runId : String) : Calm (cancel fuel sessionId runId) := by
  induction fuel generalizing sessionId runId with
  | zero => exact .fail _
  | succ fuel ih =>
    refine only_ask rfl fun _ => iteInduction (fun _ => .fail _) fun _ => ?_
    refine calm_ensureSessionMutable.bind fun _ => calm_loadRun.bind fun loaded => ?_
    have hcancelled : Calm (do
        let _ ← append sessionId (.runCancelled runId (some "cancelled_by_user"))
        let links ← onStore (.agentLinks sessionId)
        cancelChildren (cancel fuel) (childLinks sessionId runId links)
        deliverAndProcess fuel sessionId runId) := by
      refine (calm_append rfl).bind fun _ => only_onStore rfl fun links =>
        (calm_cancelChildren ih _).bind fun _ => calm_deliverChildResult.bind fun parent => ?_
      cases parent with
      | none => exact .ret _
      | some parentSessionId => exact calm_processSession fuel parentSessionId
    dsimp only
    split
    · exact hcancelled
    · exact hcancelled
    · exact only_ask rfl fun _ => iteInduction (fun _ => .ret _) fun _ => .fail _
    · exact .fail _
    · exact .fail _
    · exact .fail _
    · exact .fail _

/-- A program of the store, run by the server. -/
theorem calm_onServer {p : Program storeSignature StoreError α}
    (h : p.Only fun op : StoreOp => (ServerOp.store op).calm = true) : Calm (onServer p) := by
  induction p with
  | ret x => exact .ret _
  | fail e => exact .fail _
  | call op k ih => exact ⟨h.1, fun r => ih r (h.2 r)⟩

theorem calm_storeRun {op : StoreOp} (hop : (ServerOp.store op).calm = true) :
    op.run.Only fun op : StoreOp => (ServerOp.store op).calm = true :=
  .call hop fun _ => .ofExcept _

theorem calm_appendEvent {e : SemanticEvent} (he : e.claims = false) :
    (appendEvent sessionId e).Only fun op : StoreOp => (ServerOp.store op).calm = true := by
  have hop : (ServerOp.store (.append sessionId [e])).calm = true :=
    SemanticEvent.all_claims (by simpa using he)
  refine (calm_storeRun hop).bind fun records => ?_
  cases records with
  | nil => exact .fail _
  | cons record records => exact .ret _

theorem calm_recoverSessions (sessionIds : List String) :
    (recoverSessions sessionIds).Only fun op : StoreOp => (ServerOp.store op).calm = true := by
  induction sessionIds with
  | nil => exact .ret _
  | cons sessionId sessionIds ih =>
    refine Program.Only.bind ?_ fun _ => ih.bind fun _ => .ret _
    refine (calm_appendEvent rfl).bind fun interrupted =>
      (calm_storeRun rfl).bind fun p => ?_
    cases p.activeRun with
    | none => exact .ret _
    | some run => exact (calm_appendEvent rfl).bind fun _ => .ret _

theorem calm_resumeSessions (sessionIds : List String) : Calm (resumeSessions sessionIds) := by
  induction sessionIds with
  | nil => exact .ret _
  | cons sessionId sessionIds ih =>
    refine Program.Only.bind (only_onStore rfl fun p => ?_) fun _ => ih
    refine iteInduction (fun _ => (calm_appendMany fun e he => ?_).bind fun _ => .ret _) fun _ =>
      iteInduction (fun _ => calm_spawnWorker) fun _ => .ret _
    obtain ⟨runId, -, rfl⟩ := List.mem_map.mp he
    rfl

theorem calm_interruptSessions (reason : String) (sessionIds : List String) :
    Calm (interruptSessions reason sessionIds) := by
  induction sessionIds with
  | nil => exact .ret _
  | cons sessionId sessionIds ih =>
    refine only_onStore rfl fun p => iteInduction (fun _ => ih) fun _ =>
      (calm_appendMany fun e he => ?_).bind fun _ => ih
    rcases List.mem_append.mp he with he | he
    · obtain ⟨run, -, rfl⟩ := List.mem_map.mp he
      rfl
    · split at he
      · cases List.mem_singleton.mp he
        rfl
      · cases he

/-- Startup neither claims a call nor begins its effect. -/
theorem calm_startup : Calm startup := by
  refine Program.Only.bind (calm_onServer ?_) fun _ => only_onStore rfl calm_resumeSessions
  exact (calm_storeRun rfl).bind calm_recoverSessions

theorem calm_approvalRule {session : SessionSummary} {request : PermissionProjection}
    {scope : Option PermissionScope} : Calm (approvalRule sessionId session request scope) := by
  cases scope with
  | none => exact .ret _
  | some scope => exact Calm.of_idle approvalRule_only

theorem calm_configuredAgent {name : String} : Calm (configuredAgent name) := by
  refine only_ask rfl fun reply => ?_
  cases reply <;> trivial

theorem calm_parentCeiling : Calm (parentCeiling sessionId) := by
  refine only_onStore rfl fun links => ?_
  cases childLink sessionId links with
  | none => exact .ret _
  | some link => exact only_expect fun _ => .ret _

theorem calm_evaluateCall {c : PermissionContext} {call : ToolCallProjection} :
    Calm (evaluateCall c call) := by
  refine only_ask rfl fun requestId => ?_
  exact iteInduction (fun _ => only_onStore rfl fun _ => .ret _) fun _ => .ret _

theorem calm_evaluateCalls {c : PermissionContext} (calls : List ToolCallProjection) :
    Calm (evaluateCalls c calls) := by
  induction calls with
  | nil => exact .ret _
  | cons call calls ih => exact calm_evaluateCall.bind fun _ => ih.bind fun _ => .ret _

theorem calm_decideCalls {run : RunProjection} : Calm (decideCalls sessionId run) := by
  refine only_expect fun request => Program.Only.bind ?_ fun c => ?_
  · exact calm_configuredAgent.bind fun _ => calm_parentCeiling.bind fun _ =>
      only_onStore rfl fun _ => .ret _
  · exact calm_loadRun.bind fun loaded => (calm_evaluateCalls _).bind fun _ => .ret _

theorem CallEvaluation.events_claims {evaluation : CallEvaluation} {agentId : String}
    {e : SemanticEvent} (he : e ∈ evaluation.events runId agentId) : e.claims = false := by
  rcases List.mem_cons.mp he with rfl | he
  · rfl
  · split at he
    · cases he
    · cases List.mem_singleton.mp he
      rfl
    · rcases List.mem_cons.mp he with rfl | he
      · rfl
      · cases List.mem_singleton.mp he
        rfl

theorem calm_executeNativeTool {project : Option Project} {tool : NativeTool} {arguments : Json} :
    Calm (executeNativeTool project tool arguments) := by
  refine only_expect fun project => only_snapshot rfl fun config => only_ask rfl fun reply => ?_
  cases reply with
  | error message => exact .fail _
  | ok _ => exact only_ask rfl fun _ => .ret _

/-- What an execution does once its effect has begun. -/
theorem calm_executeCall {project : Option Project} {call : ToolCallProjection} :
    ∃ k : Unit → ServerProgram (Option Json),
      executeCall sessionId runId project call =
        (ask (.beginEffect runId call.callId) >>= k) ∧ Calm (k ()) := by
  refine ⟨_, rfl, iteInduction (fun _ => ?_) fun _ => ?_⟩
  · have hspawn : Calm (spawnDelegatedChild sessionId runId call.callId call.agentId
        call.arguments) :=
      (spawnDelegatedChild_only _ _ _ _ _).mono fun _ => ServerOp.calm_of_delegates
    refine hspawn.attempt.bind fun outcome => ?_
    split
    · exact .ret _
    · exact .fail _
    · exact .ret _
  · split
    · exact calm_executeNativeTool.bind fun _ => .ret _
    · exact only_ask rfl fun _ => .ret _

end Calm

/-! ## What an operation does to a session -/

section Session

variable {store : Store} {w : World} (env : Surroundings)

/-- A session is created with its first event; the others are as they were. -/
theorem Store.Sound.view_createSession_new (h : store.Sound) (id now : String)
    (title projectId : Option String) (id' : String) :
    let store' := (store.transact (·.createSessionWithRetention id now title projectId .forever)).2
    store'.view id' = store.view id' ∨ store.view id' = none ∧ ∃ p,
      (SessionProjection.new id').applyAll [.sessionCreated title] = .ok p ∧
        store'.view id' = some p := by
  intro store'
  cases hview : store.view id' with
  | some p => exact .inl (h.view_createSession id now title projectId hview)
  | none =>
    refine or_iff_not_imp_left.mpr fun hchanged => ⟨rfl, ?_⟩
    replace hchanged : ¬ (store.transact
        (·.createSessionWithRetention id now title projectId .forever)).2.view id' = none := hchanged
    change ∃ p, _ ∧ (store.transact
      (·.createSessionWithRetention id now title projectId .forever)).2.view id' = some p
    unfold Store.transact at hchanged ⊢
    split at hchanged
    · next db hdb =>
      obtain ⟨-, -, hinsert⟩ := Except.bind_eq_ok.mp hdb
      obtain ⟨hnew, hrows⟩ := Except.ite_error_eq_ok.mp hinsert
      obtain ⟨s, hs, rfl⟩ := Except.map_eq_ok.mp hrows
      obtain ⟨-, hs⟩ := Except.ite_error_eq_ok.mp hs
      cases hs
      have hcached : store.projectionCache.get? id' = none := by
        cases hcached : store.projectionCache.get? id' with
        | none => rfl
        | some p =>
          rw [Store.view, hcached] at hview
          cases hview
      rw [Store.view, hcached] at hview hchanged
      rw [Store.view, hcached]
      by_cases hid : id' = id
      · subst hid
        rw [SortedMap.get?_insert_self]
        exact ⟨_, rfl, rfl⟩
      · rw [SortedMap.get?_insert_of_ne _ _ hid] at hchanged
        exact absurd hview hchanged
    · exact absurd hview hchanged

/-- What an operation does to a session: nothing, or it appends events to it, or creates it. -/
theorem World.handle_session (hw : w.Sound) (op : ServerOp) (id : String) :
    let r := World.handle env op w
    r.2.view id = w.view id ∨
      ∃ p events, ((w.view id).getD (.new id)).applyAll events = .ok p ∧ r.2.view id = some p ∧
        (op = .store (.append id events) ∨ ∃ title, events = [.sessionCreated title]) := by
  intro r
  by_cases hop : ∀ id events, op ≠ .store (.append id events)
  · cases op with
    | publish record => exact .inl rfl
    | startWorker sessionId => exact .inl rfl
    | external op => exact .inl rfl
    | store op =>
      cases op with
      | append id events => exact absurd rfl (hop id events)
      | projection sessionId => exact .inl (Store.Sound.view_projection hw sessionId id)
      | createSession newId now title projectId =>
        have hstore : r.2.view id = _ := congrArg (Store.view · id)
          (perform_createSession (env.stamp w.clock) newId now title projectId w.store)
        rw [hstore]
        refine (Store.Sound.view_createSession_new hw newId now title projectId id).imp_right ?_
        rintro ⟨hnone, p, happly, hp⟩
        refine ⟨p, _, ?_, hp, .inr ⟨title, rfl⟩⟩
        rwa [show w.view id = none from hnone]
      | createPermissionRule rule =>
        refine .inl (Store.view_congr ?_ ?_ id)
        · exact (congrArg Store.projectionCache (perform_createPermissionRule ..)).trans
            (transact_createPermissionRule rule).1
        · exact (congrArg (·.db.sessions) (perform_createPermissionRule ..)).trans
            (transact_createPermissionRule rule).2
      | createAgentLink link =>
        exact .inl (Store.view_congr (transact_createAgentLink w.store link).1
          (transact_createAgentLink w.store link).2.1 id)
      | runningSessions => exact .inl rfl
      | sessionIds => exact .inl rfl
      | getSession sessionId => exact .inl rfl
      | getProject projectId => exact .inl rfl
      | matchingPermissionRule sessionId projectId agentId toolName => exact .inl rfl
      | agentLinks sessionId => exact .inl rfl
  · simp only [not_forall, not_not] at hop
    obtain ⟨sessionId, events, rfl⟩ := hop
    rcases World.handle_append_view env hw sessionId events with
      hviews | ⟨p, q, hp, happly, hq, hothers⟩
    · exact .inl (hviews id)
    · by_cases hid : id = sessionId
      · subst hid
        refine .inr ⟨q, events, ?_, hq, .inl rfl⟩
        rwa [hp]
      · exact .inl (hothers id hid)

theorem World.handle_clock (op : ServerOp) : (World.handle env op w).2.clock = w.clock + 1 := by
  cases op <;> rfl

/-- An append that succeeds applies its events. -/
theorem World.handle_append_ok (hw : w.Sound) {id : String} {events : List SemanticEvent}
    (hne : events ≠ []) {records : List RecordedEvent}
    (h : (World.handle env (.store (.append id events)) w).1 = .ok records) :
    ∃ p q, w.view id = some p ∧ p.applyAll events = .ok q ∧
      (World.handle env (.store (.append id events)) w).2.view id = some q := by
  cases hview : w.view id with
  | none =>
    obtain ⟨e, he⟩ := (Store.Sound.appendEvents_missing hw hview events
      (env.stamp w.clock id)).2 hne
    cases h.symm.trans he
  | some p =>
    cases happly : p.applyAll events with
    | error e =>
      have herror := Store.Sound.appendEvents_error hw hview (env.stamp w.clock id) happly
      cases h.symm.trans (congrArg
        (fun r : Except StoreError (List RecordedEvent) × Store => r.1) herror)
    | ok q =>
      obtain ⟨records', store', happend, -, hview', -⟩ :=
        Store.Sound.appendEvents_ok hw hview (env.stamp w.clock id) happly
      exact ⟨p, q, rfl, happly, (congrArg (fun r : Except StoreError (List RecordedEvent) × Store =>
        r.2.view id) happend).trans hview'⟩

end Session

/-! ## Calls as keys -/

/-- A call of a run of a session. -/
structure CallKey where
  sessionId : String
  runId : String
  callId : String

namespace SessionProjection

variable {p q : SessionProjection} {eventId : Nat} {e : SemanticEvent}
  {runId callId executionId : String}

/-- The id with which a call is claimed. -/
def executionId? (p : SessionProjection) (runId callId : String) : Option String :=
  (p.call? runId callId).bind (·.executionId)

/-- The approval of a call is on record. -/
def Approves (p : SessionProjection) (runId callId : String) : Prop :=
  ∃ requestId request, p.pendingPermissions.get? requestId = some request ∧
    request.runId = runId ∧ request.callId = some callId ∧ request.decision = some .allow

theorem executionId?_apply (h : p.apply eventId e = .ok q)
    (hid : p.executionId? runId callId = some executionId) :
    q.executionId? runId callId = some executionId := by
  unfold executionId? at hid ⊢
  have hchange := apply_call h runId callId
  generalize p.call? runId callId = before at hid hchange
  generalize q.call? runId callId = after at hchange ⊢
  cases hchange with
  | same => exact hid
  | emitted => cases hid
  | claimed call he hnative hfree => cases hfree.symm.trans hid
  | answered call => exact hid

/-- A call that is claimed was claimed before, or the event claims it. -/
theorem executionId?_of_apply (h : p.apply eventId e = .ok q)
    (hid : q.executionId? runId callId = some executionId) :
    p.executionId? runId callId = some executionId ∨
      e = .toolExecutionStarted runId callId executionId := by
  unfold executionId? at hid ⊢
  have hchange := apply_call h runId callId
  generalize p.call? runId callId = before at hchange ⊢
  generalize q.call? runId callId = after at hid hchange
  cases hchange with
  | same => exact .inl hid
  | emitted => cases hid
  | claimed call he =>
    cases hid
    exact .inr he
  | answered call => exact .inl hid

/-- Without a claim among the events, no call comes to be claimed. -/
theorem executionId?_of_applyAll {events : List SemanticEvent} (h : p.applyAll events = .ok q)
    (hclaims : ∀ e ∈ events, e.claims = false)
    (hid : q.executionId? runId callId = some executionId) :
    p.executionId? runId callId = some executionId := by
  refine not_imp_not.mp ?_ hid
  refine applyAll_keeps (I := fun p => ¬ p.executionId? runId callId = some executionId) ?_ h
  intro e he p q hone hnone hid
  rcases executionId?_of_apply hone hid with hid | rfl
  · exact hnone hid
  · cases hclaims _ he

/-- A claim that is accepted is the only one of its call. -/
theorem executionId?_claimed
    (h : p.apply eventId (.toolExecutionStarted runId callId executionId) = .ok q) :
    q.executionId? runId callId = some executionId ∧
      (p.executionId? runId callId = none ∨ p.executionId? runId callId = some executionId) := by
  obtain ⟨call, hcall, hid, -⟩ := apply_records rfl h
  have hafter : q.executionId? runId callId = some executionId := by
    rw [executionId?, hcall]
    exact hid
  refine ⟨hafter, ?_⟩
  cases hbefore : p.executionId? runId callId with
  | none => exact .inl rfl
  | some other =>
    rw [executionId?_apply h hbefore] at hafter
    exact .inr hafter

theorem Approves.apply (hp : p.Approves runId callId) (h : p.apply eventId e = .ok q) :
    q.Approves runId callId := by
  obtain ⟨requestId, request, hrequest, hrun, hcall, hallow⟩ := hp
  refine ⟨requestId, request, ?_, hrun, hcall, hallow⟩
  have hchange := apply_permission h requestId
  rw [hrequest] at hchange
  generalize q.pendingPermissions.get? requestId = after at hchange ⊢
  cases hchange with
  | same => rfl
  | resolved request he hopen => cases hopen.symm.trans hallow

theorem Approves.of_claimable {call : ToolCallProjection} (h : p.claimable runId call = true) :
    p.Approves runId call.callId := by
  simp only [claimable, Bool.and_eq_true, List.any_eq_true, decide_eq_true_eq,
    SortedMap.mem_values_iff] at h
  obtain ⟨-, request, ⟨requestId, hrequest⟩, ⟨hrun, hcall⟩, hallow⟩ := h
  exact ⟨requestId, request, hrequest, hrun, hcall, hallow⟩

theorem call?_reload : p.reload.call? runId callId = p.call? runId callId := by
  rw [call?, call?, reload, SortedMap.get?_mapValues]
  cases p.runs.get? runId <;> rfl

end SessionProjection

/-- What is shown of a session; nothing has happened in one that does not exist. -/
def World.shown (w : World) (sessionId : String) : SessionProjection :=
  (w.view sessionId).getD (.new sessionId)

/-- The id with which a call is claimed. -/
def World.executionId? (w : World) (k : CallKey) : Option String :=
  (w.shown k.sessionId).executionId? k.runId k.callId

/-- The approval of a call is on record. -/
def World.Approves (w : World) (k : CallKey) : Prop :=
  (w.shown k.sessionId).Approves k.runId k.callId

section Key

variable {w : World} (env : Surroundings)

/-- What every accepted event keeps of a session, every operation keeps. -/
theorem World.handle_shown (hw : w.Sound) {I : SessionProjection → Prop}
    (hI : ∀ {p q eventId e}, p.apply eventId e = .ok q → I p → I q) (op : ServerOp) {id : String}
    (h : I (w.shown id)) : I ((World.handle env op w).2.shown id) := by
  rcases World.handle_session env hw op id with hsame | ⟨p, events, happly, hp, -⟩
  · rwa [World.shown, hsame]
  · rw [World.shown, hp]
    exact SessionProjection.applyAll_keeps (fun _ _ => hI) happly h

/-- A restart reads the sessions from the database. -/
def World.restart (w : World) : World := { w with store := .ofDatabase w.store.db }

theorem World.restart_shown (hw : w.Sound) (id : String) :
    w.restart.shown id = (w.shown id).reload := by
  have hview : w.restart.view id = (w.view id).map (·.reload) := Store.Sound.view_ofDatabase hw id
  rw [World.shown, World.shown, hview]
  cases w.view id <;> rfl

end Key

/-! ## Claims as licences -/

namespace ServerOp

/-- The call that an operation claims, and the id. -/
def claim? : ServerOp → Option (CallKey × String)
  | .store (.append sessionId [.toolExecutionStarted runId callId executionId]) =>
    some (⟨sessionId, runId, callId⟩, executionId)
  | _ => none

/-- A random id that the operation returns. -/
def draws : (op : ServerOp) → op.Reply → Option String
  | .external .newUuid, id => some id
  | _, _ => none

def succeeds : (op : ServerOp) → op.Reply → Bool
  | .store _, .ok _ => true
  | _, _ => false

/-- The projection that the operation returns shows the approval of a call. -/
def Shows : (op : ServerOp) → op.Reply → CallKey → Prop
  | .store (.projection sessionId), .ok p, k =>
    k.sessionId = sessionId ∧ p.Approves k.runId k.callId
  | _, _, _ => False

/-- The run and the call whose effect begins. -/
def begins? : ServerOp → Option (String × String)
  | .external (.beginEffect runId callId) => some (runId, callId)
  | _ => none

end ServerOp

/-- Claims of calls as licences. What is done is named by the session of the task, the run and the
call. An id cannot be drawn again once the clock is past it, nor where a call was claimed with it in
the beginning. -/
def licensing (env : Surroundings) (session? : Nat → Option String) (start : World) :
    Licensing serverSignature World CallKey String (Option String × String × String) where
  admits op := ∀ sessionId events, op = .store (.append sessionId events) →
    events.length = 1 ∨ ∀ e ∈ events, e.claims = false
  draws := ServerOp.draws
  claims := ServerOp.claim?
  granted := ServerOp.succeeds
  shows := ServerOp.Shows
  acts i op := op.begins?.map fun call => (session? i, call)
  act k := (some k.sessionId, k.runId, k.callId)
  holder := World.executionId?
  permits := World.Approves
  spent w id := (∃ k, start.executionId? k = some id) ∨ ∃ n < w.clock, env.answer n .newUuid = id

/-- Random ids do not repeat. -/
structure FreshIds (env : Surroundings) (start : World) : Prop where
  distinct : ∀ {n m}, env.answer n .newUuid = env.answer m .newUuid → n = m
  unused : ∀ n k, start.executionId? k ≠ some (env.answer n .newUuid)

/-- The tasks perform one operation at a time. -/
def taskHandler (env : Surroundings) : TaskHandler serverSignature World :=
  fun _ op w => some (World.handle env op w)

section Lawful

variable {env : Surroundings} {session? : Nat → Option String} {start : World}

theorem ServerOp.claim?_eq_some {op : ServerOp} {k : CallKey} {id : String}
    (h : op.claim? = some (k, id)) :
    op = .store (.append k.sessionId [.toolExecutionStarted k.runId k.callId id]) := by
  unfold ServerOp.claim? at h
  split at h
  · cases h
    rfl
  · cases h

theorem ServerOp.shows_projection {sessionId : String} {r : Except StoreError SessionProjection}
    {k : CallKey} (h : (ServerOp.store (.projection sessionId)).Shows r k) :
    ∃ p, r = .ok p ∧ k.sessionId = sessionId ∧ p.Approves k.runId k.callId := by
  cases r with
  | ok p => exact ⟨p, rfl, h⟩
  | error e => exact h.elim

theorem taskHandler_eq_some {i : Nat} {op : ServerOp} {r : op.Reply} {w w' : World}
    (h : taskHandler env i op w = some (r, w')) :
    r = (World.handle env op w).1 ∧ w' = (World.handle env op w).2 :=
  Prod.mk.inj (Option.some.inj h).symm

/-- **The store respects the licences.** -/
theorem licensing_lawful (hfresh : FreshIds env start) :
    (licensing env session? start).Lawful (taskHandler env) World.Sound where
  injective := by
    rintro ⟨s, r, c⟩ ⟨s', r', c'⟩ h
    cases h
    rfl
  apart := by
    rintro i op ⟨k, id⟩ h
    rw [ServerOp.claim?_eq_some h]
    rfl
  kept := by
    rintro i op w r w' hw h
    obtain ⟨rfl, rfl⟩ := taskHandler_eq_some h
    exact World.handle_sound env hw op
  drawn := by
    rintro i op w r w' id hw h hdraws
    obtain ⟨rfl, rfl⟩ := taskHandler_eq_some h
    cases op with
    | external op =>
      cases op with
      | newUuid =>
        cases hdraws
        refine ⟨?_, .inr ⟨w.clock, Nat.lt_succ_self _, rfl⟩⟩
        rintro (⟨k, hk⟩ | ⟨n, hn, hid⟩)
        · exact hfresh.unused _ k hk
        · exact absurd (hfresh.distinct hid) hn.ne
      | _ => cases hdraws
    | _ => cases hdraws
  spent := by
    rintro i op w r w' id hw h hspent
    obtain ⟨rfl, rfl⟩ := taskHandler_eq_some h
    refine hspent.imp_right ?_
    rintro ⟨n, hn, hid⟩
    refine ⟨n, ?_, hid⟩
    rw [World.handle_clock]
    exact hn.trans (Nat.lt_succ_self _)
  held := by
    rintro i op w r w' k id hw h hheld
    obtain ⟨rfl, rfl⟩ := taskHandler_eq_some h
    exact World.handle_shown env hw (I := fun p => p.executionId? k.runId k.callId = some id)
      (fun happly => SessionProjection.executionId?_apply happly) op hheld
  newly := by
    rintro i op w r w' k id hw h hadmits hheld
    obtain ⟨rfl, rfl⟩ := taskHandler_eq_some h
    change (World.handle env op w).2.executionId? k = some id at hheld
    rw [World.executionId?] at hheld
    rcases World.handle_session env hw op k.sessionId with hsame | ⟨p, events, happly, hp, hop⟩
    · rw [World.shown, hsame] at hheld
      exact .inl ⟨k, hheld⟩
    rw [World.shown, hp] at hheld
    have hbefore : (∀ e ∈ events, e.claims = false) → w.executionId? k = some id := fun hclaims =>
      SessionProjection.executionId?_of_applyAll happly hclaims hheld
    rcases hop with rfl | ⟨title, rfl⟩
    · rcases hadmits _ _ rfl with hone | hclaims
      · obtain ⟨e, rfl⟩ := List.length_eq_one_iff.mp hone
        obtain ⟨q, hone, hnil⟩ := SessionProjection.applyAll_cons_eq_ok.mp happly
        cases hnil
        rcases SessionProjection.executionId?_of_apply hone hheld with hid | rfl
        · exact .inl ⟨k, hid⟩
        · exact .inr rfl
      · exact .inl ⟨k, hbefore hclaims⟩
    · exact .inl ⟨k, hbefore fun e he => by cases List.mem_singleton.mp he; rfl⟩
  granted := by
    rintro i op w r w' k id hw h hclaim hgranted
    obtain ⟨rfl, rfl⟩ := taskHandler_eq_some h
    obtain rfl := ServerOp.claim?_eq_some hclaim
    cases hreply : (World.handle env (.store (.append k.sessionId
        [.toolExecutionStarted k.runId k.callId id])) w).1 with
    | error e =>
      rw [hreply] at hgranted
      cases hgranted
    | ok records =>
      obtain ⟨p, q, hp, happly, hq⟩ := World.handle_append_ok env hw (List.cons_ne_nil _ _) hreply
      obtain ⟨q', hone, hnil⟩ := SessionProjection.applyAll_cons_eq_ok.mp happly
      cases hnil
      obtain ⟨hafter, hbefore⟩ := SessionProjection.executionId?_claimed hone
      change (w.executionId? k = none ∨ w.executionId? k = some id) ∧
        (World.handle env _ w).2.executionId? k = some id
      rw [World.executionId?, World.executionId?, World.shown, World.shown, hp, hq]
      exact ⟨hbefore, hafter⟩
  shown := by
    rintro i op w r w' k hw h hshows
    obtain ⟨rfl, rfl⟩ := taskHandler_eq_some h
    cases op with
    | store op =>
      cases op with
      | projection sessionId =>
        obtain ⟨p, hp, hsession, happroves⟩ := ServerOp.shows_projection hshows
        have hview : (World.handle env (.store (.projection sessionId)) w).2.view sessionId =
            some p :=
          (Store.Sound.view_projection hw sessionId sessionId).trans
            (Store.Sound.view_of_projection hw hp)
        change (World.handle env _ w).2.Approves k
        rw [World.Approves, World.shown, hsession, hview]
        exact happroves
      | _ => exact hshows.elim
    | _ => exact hshows.elim
  permitted := by
    rintro i op w r w' k hw h hpermits
    obtain ⟨rfl, rfl⟩ := taskHandler_eq_some h
    exact World.handle_shown env hw (I := fun p => p.Approves k.runId k.callId)
      (fun happly hp => hp.apply happly) op hpermits

/-- A restart spares what is claimed and approved. -/
theorem licensing_spares :
    (licensing env session? start).Spares World.Sound World.restart where
  kept hw := Store.Sound.ofDatabase hw
  holder := by
    intro w k hw
    change w.restart.executionId? k = w.executionId? k
    rw [World.executionId?, World.executionId?, World.restart_shown hw,
      SessionProjection.executionId?, SessionProjection.executionId?,
      SessionProjection.call?_reload]
  permits := by
    intro w k hw hpermits
    change (w.restart.shown k.sessionId).Approves k.runId k.callId
    rw [World.restart_shown hw]
    exact hpermits
  spent _ hspent := hspent

end Lawful

/-! ## What is under way -/

section Follows

variable {env : Surroundings} {session? : Nat → Option String} {start : World} {i : Nat}
  {α β : Type} {sessionId runId : String}

/-- From every stage, a program acts under licences. -/
def Licensed (env : Surroundings) (session? : Nat → Option String) (start : World) (i : Nat)
    {α : Type} (p : ServerProgram α) : Prop :=
  ∀ a, p.Follows ((licensing env session? start).Allows i) ((licensing env session? start).next i)
    (fun _ _ => True) a

theorem Licensed.bind {p : ServerProgram α} {f : α → ServerProgram β}
    (hp : Licensed env session? start i p) (hf : ∀ x, Licensed env session? start i (f x)) :
    Licensed env session? start i (p >>= f) := fun a =>
  (hp a).bind (fun b x _ => hf x b) fun _ _ _ => trivial

/-- A calm operation is always allowed. -/
theorem licensing_allows_calm {op : ServerOp} (h : op.calm = true) (a : Licensing.Stage CallKey String) :
    (licensing env session? start).Allows i a op where
  admits := by
    rintro sessionId events rfl
    refine .inr fun e he => ?_
    simpa using List.all_eq_true.mp h e he
  claims := by
    intro k id hclaim
    obtain rfl := ServerOp.claim?_eq_some hclaim
    cases h
  acts := by
    intro x hx
    obtain ⟨call, hbegins, -⟩ := Option.map_eq_some_iff.mp hx
    unfold ServerOp.begins? at hbegins
    split at hbegins
    · cases h
    · cases hbegins

theorem Calm.licensed {p : ServerProgram α} (h : Calm p) : Licensed env session? start i p :=
  fun _ => (Program.Follows.invariant (J := fun _ => True) (P := fun _ => True)
    (fun a _ _ hop => ⟨licensing_allows_calm hop a, fun _ => trivial⟩) h trivial).mono
      fun _ _ _ => trivial

/-- Publishing and the like change no stage. -/
theorem licensing_quiet : Quiet ((licensing env session? start).Allows i)
    ((licensing env session? start).next i) := by
  have hnext : ∀ (a : Licensing.Stage CallKey String) (op : ServerOp) (r : op.Reply),
      op.routine = true → (licensing env session? start).next i a op r = a := by
    intro a op r hop
    unfold ServerOp.routine at hop
    split at hop
    · simp [Licensing.next, licensing, ServerOp.claim?, ServerOp.draws, ServerOp.Shows,
        ServerOp.begins?]
    · simp [Licensing.next, licensing, ServerOp.claim?, ServerOp.draws, ServerOp.Shows,
        ServerOp.begins?]
    · simp [Licensing.next, licensing, ServerOp.claim?, ServerOp.draws, ServerOp.Shows,
        ServerOp.begins?]
    · simp [Licensing.next, licensing, ServerOp.claim?, ServerOp.draws, ServerOp.Shows,
        ServerOp.begins?]
    · cases hop
  exact {
    publish := fun a record => ⟨licensing_allows_calm rfl a, hnext a (.publish record) () rfl⟩
    worker := fun a id => ⟨licensing_allows_calm rfl a, hnext a (.startWorker id) () rfl⟩
    release := fun a runId =>
      ⟨licensing_allows_calm rfl a, hnext a (.external (.releaseAdmission runId)) () rfl⟩
    shutdown := fun a b =>
      ⟨licensing_allows_calm rfl a, hnext a (.external .isShutdown) b rfl⟩ }

/-- **A call is claimed with an id of its own, and its effect begins under the claim.** -/
theorem claimAndExecute_follows (hi : session? i = some sessionId) {project : Option Project}
    {call : ToolCallProjection} {a : Licensing.Stage CallKey String}
    (hseen : a.seen ⟨sessionId, runId, call.callId⟩) :
    (claimAndExecute sessionId runId project call).Follows
      ((licensing env session? start).Allows i) ((licensing env session? start).next i)
      (fun _ _ => True) a := by
  refine follows_ask (licensing_allows_calm rfl a) fun executionId => ?_
  -- the id is the task's own
  generalize hb : (licensing env session? start).next i a (.external .newUuid) executionId = b
  have htoken : b.token = some executionId := by
    rw [← hb]
    rfl
  have hseen : b.seen ⟨sessionId, runId, call.callId⟩ := by
    rw [← hb]
    exact .inl hseen
  have hallowed : (licensing env session? start).Allows i b (.store (.append sessionId
      [.toolExecutionStarted runId call.callId executionId])) := by
    refine ⟨?_, ?_, ?_⟩
    · rintro id events hop
      cases hop
      exact .inl rfl
    · intro k id hclaim
      cases hclaim
      exact ⟨htoken, hseen⟩
    · intro x hx
      cases hx
  refine (licensing_quiet.append (Q := fun b x => ∀ record, x = .ok record →
    b.licence = some ⟨sessionId, runId, call.callId⟩) hallowed ?_ ?_).bind ?_ fun _ _ _ => trivial
  · rintro records record _ -
    rfl
  · rintro r e record he
    cases he
  intro c record hlicence
  replace hlicence := hlicence record rfl
  obtain ⟨k, hexecute, hk⟩ := @calm_executeCall sessionId runId project call
  rw [hexecute, Program.bind_assoc]
  -- the effect begins under the claim
  refine follows_ask ⟨?_, ?_, ?_⟩ fun _ => ?_
  · rintro id events hop
    cases hop
  · intro k id hclaim
    cases hclaim
  · intro x hx
    cases hx
    refine ⟨_, hlicence, ?_⟩
    rw [hi]
    rfl
  refine Licensed.bind (Calm.licensed hk) (fun outcome => Calm.licensed ?_) _
  cases outcome with
  | none => exact .ret _
  | some result => exact (calm_append rfl).bind fun _ => .ret _

theorem executeApprovedCalls_licensed (hi : session? i = some sessionId)
    {project : Option Project} (fuel : Nat) :
    Licensed env session? start i (executeApprovedCalls sessionId runId project fuel) := by
  induction fuel with
  | zero => exact Calm.licensed (.fail _)
  | succ fuel ih =>
    intro a
    refine follows_loadRun (licensing_allows_calm rfl a) (fun p run hrun => ?_) fun _ _ => trivial
    dsimp only
    split
    · trivial
    · next call hcall =>
      have hclaimable : p.claimable runId call = true := List.find?_some hcall
      refine (claimAndExecute_follows hi ?_).bind (fun b _ _ => ih b) fun _ _ _ => trivial
      exact .inr ⟨rfl, .of_claimable hclaimable⟩

theorem executeApprovedNativeCalls_licensed (hi : session? i = some sessionId) (fuel : Nat) :
    Licensed env session? start i (executeApprovedNativeCalls fuel sessionId runId) :=
  (Calm.of_idle sessionProject_only).licensed.bind fun _ =>
    (executeApprovedCalls_licensed hi fuel).bind fun _ =>
      (Calm.of_idle resumeIfToolResultsReady_only).licensed

theorem evaluateToolPermissions_licensed (hi : session? i = some sessionId) (fuel : Nat)
    (run : RunProjection) :
    Licensed env session? start i (evaluateToolPermissions fuel sessionId run) := by
  refine calm_decideCalls.licensed.bind fun decided => ?_
  have hevents : Calm (appendMany sessionId
      (decided.2.2.flatMap (·.events decided.2.1.runId decided.1.agentId))) := by
    refine calm_appendMany fun e he => ?_
    obtain ⟨evaluation, -, he⟩ := List.mem_flatMap.mp he
    exact CallEvaluation.events_claims he
  refine hevents.licensed.bind fun _ => iteInduction (fun _ => ?_) fun _ => (Calm.licensed (.ret _))
  exact (executeApprovedNativeCalls_licensed hi fuel).bind fun _ => Calm.licensed (.ret _)

theorem resolvePermission_licensed (hi : session? i = some sessionId) (fuel : Nat)
    (requestId : String) (decision : PermissionDecision) (scope : Option PermissionScope) :
    Licensed env session? start i
      (resolvePermission fuel sessionId runId requestId decision scope) := by
  have hread : ∀ {op : StoreOp}, (ServerOp.store op).calm = true → Calm (onStore op) := fun hop =>
    .call hop fun _ => .ofExcept _
  have hwake : ∀ ready : Bool, Calm (if ready then spawnWorker sessionId else .ret ()) := fun _ =>
    iteInduction (fun _ => calm_spawnWorker) fun _ => .ret _
  rw [resolvePermission_eq]
  refine (Calm.of_idle admitSubmission_only).licensed.bind fun _ =>
    (hread rfl).licensed.bind fun projection => ?_
  unfold decidePermission
  split
  · exact Calm.licensed (.fail _)
  · exact Calm.licensed (.ret _)
  refine (hread rfl).licensed.bind fun session => calm_approvalRule.licensed.bind fun rule => ?_
  cases decision with
  | deny =>
    refine Calm.licensed (only_expect fun callId => (calm_appendMany ?_).bind fun _ =>
      (Calm.of_idle resumeIfToolResultsReady_only).bind hwake)
    intro e he
    rcases List.mem_cons.mp he with rfl | he
    · rfl
    · cases List.mem_singleton.mp he
      rfl
  | allow =>
    refine (calm_appendMany ?_).licensed.bind fun _ =>
      (executeApprovedNativeCalls_licensed hi fuel).bind fun ready => (hwake ready).licensed
    intro e he
    cases List.mem_singleton.mp he
    rfl
  | ask =>
    refine Calm.licensed ((calm_appendMany ?_).bind fun _ => .ret _)
    intro e he
    cases List.mem_singleton.mp he
    rfl

/-- **Whatever is under way acts under licences.** -/
theorem ServerWork.follows (fuel : Nat) (work : ServerWork) (hi : session? i = work.sessionId?) :
    Licensed env session? start i (work.program fuel) := by
  cases work with
  | inFlight operation =>
    cases operation with
    | queueRun sessionId request =>
      exact Calm.licensed (calm_queueRun.bind fun _ => .ret _)
    | retry sessionId runId => exact Calm.licensed (calm_retry.bind fun _ => .ret _)
    | resume sessionId => exact Calm.licensed calm_resume
    | approve sessionId runId requestId scope => exact resolvePermission_licensed hi fuel _ _ _
    | deny sessionId runId requestId => exact resolvePermission_licensed hi fuel _ _ _
    | worker sessionId => exact Calm.licensed (calm_processSession fuel sessionId)
  | cancel sessionId runId => exact Calm.licensed (calm_cancel fuel sessionId runId)
  | submitToolResult sessionId runId callId result => exact Calm.licensed calm_submitToolResult
  | evaluateToolPermissions sessionId run => exact evaluateToolPermissions_licensed hi fuel run
  | startup => exact Calm.licensed calm_startup
  | interruptRemainingRuns reason =>
    exact Calm.licensed (only_onStore rfl (calm_interruptSessions reason))

end Follows

/-! ## The result -/

/-- The server with work under way, and the effects that have begun: each by the session of its
task, the run and the call. -/
abbrev Executing : Type :=
  Tasks serverSignature StoreError Unit
    (Licensing.Record World CallKey String (Option String × String × String))

def Executing.start (start : World) (fuel : Nat) (works : List ServerWork) : Executing where
  state := ⟨start, fun _ => .start, []⟩
  programs := works.map (·.program fuel)

/-- A task takes a turn, or the server is restarted. -/
def Executing.step (env : Surroundings) (start : World) (works : List ServerWork) :
    Executing → Option Nat → Executing :=
  (licensing env (fun i => (works[i]?).bind (·.sessionId?)) start).move (taskHandler env)
    World.restart

/-- **The effect of a call begins once at most**, over all schedules and restarts. It begins for a
call that was not claimed in the beginning, is claimed in the log of its session, and was approved. -/
theorem effects_begin_once (env : Surroundings) (start : World) (hstart : start.Sound)
    (hfresh : FreshIds env start) (fuel : Nat) (works : List ServerWork)
    (schedule : List (Option Nat)) :
    let m := Schedule.run (Executing.step env start works) (.start start fuel works) schedule
    m.state.acted.Nodup ∧ ∀ x ∈ m.state.acted, ∃ k : CallKey,
      x = (some k.sessionId, k.runId, k.callId) ∧ start.executionId? k = none ∧
        (m.state.state.executionId? k).isSome ∧ m.state.state.Approves k := by
  intro m
  have hm : (licensing env (fun i => (works[i]?).bind (·.sessionId?)) start).Governed World.Sound
      (fun k => (start.executionId? k).isSome = true) m := by
    refine Licensing.Governed.along (licensing_lawful hfresh) licensing_spares ?_ schedule
    refine Licensing.Governed.start hstart (fun k id hid => .inl ⟨k, hid⟩) fun i p hp => ?_
    rw [List.getElem?_map] at hp
    obtain ⟨work, hwork, rfl⟩ := Option.map_eq_some_iff.mp hp
    exact ServerWork.follows fuel work (by rw [hwork]; rfl) _
  obtain ⟨hnodup, hacted⟩ := hm.once
  refine ⟨hnodup, fun x hx => ?_⟩
  obtain ⟨k, hk, hold, hclaimed, happroved⟩ := hacted x hx
  exact ⟨k, hk.symm, Option.not_isSome_iff_eq_none.mp hold, hclaimed, happroved⟩

/-- Where no call is claimed in the beginning, numbered ids are fresh. -/
theorem freshIds_plain (config : PiqoConfig) {events : List SemanticEvent}
    (hclaims : ∀ e ∈ events, e.claims = false) :
    FreshIds (.plain config) (World.holding events) where
  distinct h := Nat.repr_inj.mp (String.append_right_inj _ |>.mp h)
  unused := by
    intro n k hk
    rw [World.executionId?, World.shown] at hk
    cases hview : (World.holding events).view k.sessionId with
    | none =>
      rw [hview] at hk
      cases hk
    | some p =>
      rw [hview] at hk
      obtain ⟨-, accepted, hsubset, happly⟩ := World.holding_view hview
      have hnone : ∀ e ∈ SemanticEvent.sessionCreated none :: accepted, e.claims = false := by
        intro e he
        rcases List.mem_cons.mp he with rfl | he
        · rfl
        · exact hclaims e (hsubset he)
      cases SessionProjection.executionId?_of_applyAll happly hnone hk

/-- A client approves twice, and the server is started again later. -/
def approvedTwice : List ServerWork :=
  [.inFlight (.approve "s" "r" "q" .once), .inFlight (.approve "s" "r" "q" .once), .startup]

/-- The approvals run side by side until the effect has begun; then the server is restarted. -/
def cutShort : List (Option Nat) :=
  (List.replicate 13 [some 0, some 1]).flatten ++ [none] ++ List.replicate 8 (some 2)

/-- The effect begins once, and the call that was cut short is not taken up again. -/
theorem effects_begin_once_twice :
    let m := Schedule.run (Executing.step (.plain {}) (World.holding (askedEvents [])) approvedTwice)
      (.start (World.holding (askedEvents [])) 2 approvedTwice) cutShort
    m.state.acted = [(some "s", "r", "c")] ∧ m.state.acted.Nodup ∧
      ∀ x ∈ m.state.acted, ∃ k : CallKey, x = (some k.sessionId, k.runId, k.callId) ∧
        (World.holding (askedEvents [])).executionId? k = none ∧
        (m.state.state.executionId? k).isSome ∧ m.state.state.Approves k := by
  have hclaims : ∀ e ∈ askedEvents [], e.claims = false := by
    decide
  exact ⟨by decide +kernel, effects_begin_once (.plain {}) _ (World.holding_sound _)
    (freshIds_plain {} hclaims) 2 approvedTwice cutShort⟩

end Piqo
