import Mathlib.Data.List.Perm.Subperm
import Mathlib.Data.List.Range
import PiqoServer.Core.History
import PiqoServer.Library.Tasks
import PiqoServer.Server.Compaction
import PiqoServer.Server.Runs

/-!
# Submitted tool results

The results of calls that the server does not execute itself come from clients, through
`submit_tool_result` (`piqo-server/src/supervisor.rs`). Whether a result is recorded is decided from
one projection, read under the lock of the session; the call that records the last result of a run
resumes the queue and starts a worker.

The duplicate check comes last, after the checks of the run's status and of the permission.

## Main definitions

* `SessionProjection.admitToolResult`: the checks of a submission, on one projection
* `submitToolResult`: the request, run alone
* `lockedSubmission`: the same with the lock of the session
* `SessionProjection.Later`: what a session becomes
* `RunProjection.answered`: a run whose open calls have their results

## Main results

* `toolResult_resubmitted_iff`: a result can be submitted again exactly as long as the run waits
* `toolResults_any_order`: concurrent submissions of the results of all open calls
-/

namespace Piqo

/-! ## The request -/

namespace SessionProjection

variable (p : SessionProjection) (runId callId : String)

/-- The call that a result is for. -/
def submittedCall (run : RunProjection) : Except StoreError ToolCallProjection :=
  match run.toolCalls.get? callId with
  | some call => .ok call
  | none =>
    if p.runs.values.any (·.toolCalls.contains callId) then .error (.toolCallWrongRun callId runId)
    else .error (.toolCallNotFound callId)

/-- The decision about a call is that of its first request. -/
def callDecision : Option PermissionDecision :=
  (p.pendingPermissions.values.find? fun permission =>
    permission.runId = runId && permission.callId = some callId).bind (·.decision)

/-- The checks of a run that a result is for. -/
def awaitedRun : Except StoreError RunProjection :=
  match p.runs.get? runId with
  | none => .error (.runNotFound runId)
  | some run =>
    if run.status ≠ .requiresAction then .error (.conflict "run is not awaiting tool results")
    else match RunRequest.ofJson? run.request with
      | none => .error .json
      | some request => if request.ownTranscript then .error .callerOwnedTranscript else .ok run

/-- The checks of a call that a result is for. -/
def awaitedCall (run : RunProjection) : Except StoreError ToolCallProjection :=
  (p.submittedCall runId callId run).bind fun call =>
    if call.native then
      if call.toolName.startsWith "mcp__" then .error (.mcpToolManaged callId)
      else .error (.nativeToolManaged callId)
    else match p.callDecision runId callId with
      | some .allow => .ok call
      | some .deny => .error (.conflict "tool permission was denied")
      | some .ask | none => .error (.conflict "tool permission has not been approved")

/-- The checks of a submission: the call whose result is to be recorded, and whether no other call
of the run is open. Nothing is left to do where the result is there. -/
def admitToolResult (result : Json) : Except StoreError (Option (ToolCallProjection × Bool)) :=
  (p.awaitedRun runId).bind fun run => (p.awaitedCall runId callId run).bind fun call =>
    match call.result with
    | some existing =>
      if existing = result then .ok none else .error (.toolResultConflict callId)
    | none => .ok (some (call, run.toolCalls.values.all fun candidate =>
        candidate.callId = callId || candidate.result.isSome))

end SessionProjection

section Request

variable (sessionId runId callId : String)

/-- What comes before the lock. -/
def admitSubmission : ServerProgram Unit := do
  if ← ask .isShutdown then .fail .shuttingDown
  else ensureSessionMutable sessionId

/-- The events of a result. -/
def submissionEvents (call : ToolCallProjection) (result : Json) (allReady : Bool) :
    List SemanticEvent :=
  [.toolResult runId callId call.agentId call.toolName result] ++
    if allReady then [.queueResumed] else []

/-- What happens under the lock; whether the run goes on. -/
def recordToolResult (result : Json) : ServerProgram Bool := do
  let projection ← onStore (.projection sessionId)
  match ← .ofExcept (projection.admitToolResult runId callId result) with
  | none => return false
  | some (call, allReady) =>
    let _ ← appendMany sessionId (submissionEvents runId callId call result allReady)
    return allReady

/-- What comes after the lock. -/
def wakeWorker (allReady : Bool) : ServerProgram Unit :=
  if allReady then spawnWorker sessionId else return ()

/-- `submit_tool_result`. -/
def submitToolResult (result : Json) : ServerProgram Unit := do
  admitSubmission sessionId
  let allReady ← recordToolResult sessionId runId callId result
  wakeWorker sessionId allReady

end Request

/-! ## Checks that pass -/

namespace SessionProjection

variable {p : SessionProjection} {runId callId : String} {run : RunProjection}
  {call : ToolCallProjection} {result : Json}

theorem awaitedRun_eq_ok : p.awaitedRun runId = .ok run ↔
    p.runs.get? runId = some run ∧ run.status = .requiresAction ∧
      ∃ request, RunRequest.ofJson? run.request = some request ∧ request.ownTranscript = false := by
  constructor
  · intro h
    unfold awaitedRun at h
    split at h
    · cases h
    next run' hrun =>
    obtain ⟨hstatus, h⟩ := Except.ite_error_eq_ok.mp h
    split at h
    · cases h
    next request hrequest =>
    obtain ⟨hown, h⟩ := Except.ite_error_eq_ok.mp h
    cases h
    exact ⟨hrun, not_not.mp hstatus, request, hrequest, by simpa using hown⟩
  · rintro ⟨hrun, hstatus, request, hrequest, hown⟩
    simp [awaitedRun, hrun, hstatus, hrequest, hown]

theorem awaitedCall_eq_ok : p.awaitedCall runId callId run = .ok call ↔
    run.toolCalls.get? callId = some call ∧ call.native = false ∧
      p.callDecision runId callId = some .allow := by
  constructor
  · intro h
    unfold awaitedCall at h
    obtain ⟨call', hcall, h⟩ := Except.bind_eq_ok.mp h
    have hcall' : run.toolCalls.get? callId = some call' := by
      unfold submittedCall at hcall
      split at hcall
      · cases hcall
        assumption
      · split at hcall <;> cases hcall
    cases hnative : call'.native with
    | true =>
      rw [if_pos hnative] at h
      split at h <;> cases h
    | false =>
      rw [if_neg (by simp [hnative])] at h
      split at h
      · next hdecision =>
        cases h
        exact ⟨hcall', hnative, hdecision⟩
      all_goals cases h
  · rintro ⟨hcall, hnative, hdecision⟩
    simp [awaitedCall, submittedCall, Except.bind, hcall, hnative, hdecision]

/-- A submission passes its checks. -/
theorem admitToolResult_eq (hrun : p.awaitedRun runId = .ok run)
    (hcall : p.awaitedCall runId callId run = .ok call) (result : Json) :
    p.admitToolResult runId callId result = match call.result with
      | some existing =>
        if existing = result then .ok none else .error (.toolResultConflict callId)
      | none => .ok (some (call, run.toolCalls.values.all fun candidate =>
          candidate.callId = callId || candidate.result.isSome)) := by
  rw [admitToolResult, hrun, Except.bind, hcall]
  rfl

theorem admitToolResult_eq_ok {outcome : Option (ToolCallProjection × Bool)}
    (h : p.admitToolResult runId callId result = .ok outcome) :
    ∃ run call, p.awaitedRun runId = .ok run ∧ p.awaitedCall runId callId run = .ok call := by
  unfold admitToolResult at h
  obtain ⟨run, hrun, h⟩ := Except.bind_eq_ok.mp h
  obtain ⟨call, hcall, -⟩ := Except.bind_eq_ok.mp h
  exact ⟨run, call, hrun, hcall⟩

end SessionProjection

/-! ## One submission -/

section Run

variable (env : Surroundings) {w : World} {sessionId : String} {p : SessionProjection}

/-- The project of the session is not being deleted at the time a request looks. -/
def Surroundings.Mutable (env : Surroundings) (w : World) (sessionId : String) : Prop :=
  ∀ session projectId, w.store.db.getSession sessionId = .ok session →
    session.projectId = some projectId → env.answer (w.clock + 1) (.isDeleting projectId) = false

theorem World.Sound.getSession_view (hw : w.Sound) (hview : w.view sessionId = some p) :
    ∃ session, w.store.db.getSession sessionId = .ok session := by
  obtain ⟨s, hs, -⟩ := Store.Sound.coherent_view hw hview
  refine ⟨s.summary, ?_⟩
  rw [Database.getSession, hs]

theorem ensureSessionMutable_run {session : SessionSummary}
    (hsession : w.store.db.getSession sessionId = .ok session) :
    (env.Mutable w sessionId → ∃ w', w.Reads w' ∧
      (ensureSessionMutable sessionId).run (World.handle env) w = (.ok (), w')) ∧
    (¬ env.Mutable w sessionId → ∃ e w',
      (ensureSessionMutable sessionId).run (World.handle env) w = (.error e, w')) := by
  rw [ensureSessionMutable, Program.run_bind_ok _ (getSession_run env hsession)]
  rcases hproject : session.projectId with _ | projectId
  · refine ⟨fun _ => ⟨w.tick, World.reads_tick w, rfl⟩, fun hmutable => absurd ?_ hmutable⟩
    intro session' projectId hsession' hproject'
    cases hsession.symm.trans hsession'
    rw [hproject] at hproject'
    cases hproject'
  · dsimp only
    rw [Program.run_bind_ok _ (ask_run env (.isDeleting projectId) w.tick)]
    change (env.Mutable w sessionId → ∃ w', w.Reads w' ∧
        (if env.answer (w.clock + 1) (.isDeleting projectId) then _ else _ :
          ServerProgram Unit).run _ _ = _) ∧ _
    constructor
    · intro hmutable
      refine ⟨w.tick.tick, (World.reads_tick w).trans (World.reads_tick _), ?_⟩
      rw [hmutable session projectId hsession hproject]
      rfl
    · intro hmutable
      cases hdeleting : env.answer (w.clock + 1) (.isDeleting projectId) with
      | true =>
        refine ⟨.projectDeleting projectId, w.tick.tick, ?_⟩
        rw [show env.answer w.tick.clock (.isDeleting projectId) = true from hdeleting]
        rfl
      | false =>
        refine absurd ?_ hmutable
        intro session' projectId' hsession' hproject'
        cases hsession.symm.trans hsession'
        rw [hproject] at hproject'
        cases hproject'
        exact hdeleting

theorem admitSubmission_run (hw : w.Sound) (hview : w.view sessionId = some p)
    (hup : env.answer w.clock .isShutdown = false) :
    (env.Mutable w.tick sessionId → ∃ w', w.Reads w' ∧
      (admitSubmission sessionId).run (World.handle env) w = (.ok (), w')) ∧
    (¬ env.Mutable w.tick sessionId → ∃ e w',
      (admitSubmission sessionId).run (World.handle env) w = (.error e, w')) := by
  have hstart : (admitSubmission sessionId).run (World.handle env) w =
      (ensureSessionMutable sessionId).run (World.handle env) w.tick := by
    rw [admitSubmission, Program.run_bind_ok _ (ask_run env .isShutdown w), hup]
    rfl
  obtain ⟨session, hsession⟩ := hw.getSession_view hview
  obtain ⟨hpass, hrefuse⟩ := ensureSessionMutable_run env (w := w.tick) hsession
  rw [hstart]
  refine ⟨fun hmutable => ?_, hrefuse⟩
  obtain ⟨w', hreads, hrun⟩ := hpass hmutable
  exact ⟨w', (World.reads_tick w).trans hreads, hrun⟩

/-- What happens under the lock is decided by the projection. -/
theorem recordToolResult_run (hw : w.Sound) (hview : w.view sessionId = some p)
    (runId callId : String) (result : Json) :
    ∃ w', w.Reads w' ∧ (recordToolResult sessionId runId callId result).run (World.handle env) w =
      (match p.admitToolResult runId callId result with
        | .error e => .fail e
        | .ok none => .ret false
        | .ok (some (call, allReady)) => do
          let _ ← appendMany sessionId (submissionEvents runId callId call result allReady)
          .ret allReady : ServerProgram Bool).run (World.handle env) w' := by
  obtain ⟨w', hprojection, hreads⟩ := projection_run env hw hview
  refine ⟨w', hreads, ?_⟩
  rw [recordToolResult, Program.run_bind_ok _ hprojection]
  rcases p.admitToolResult runId callId result with e | _ | ⟨call, allReady⟩ <;> rfl

theorem wakeWorker_run (sessionId : String) (allReady : Bool) (w : World) :
    ∃ w', (wakeWorker sessionId allReady).run (World.handle env) w = (.ok (), w') ∧
      w'.store = w.store := by
  cases allReady with
  | false => exact ⟨w, rfl, rfl⟩
  | true =>
    simp only [wakeWorker, if_true, spawnWorker]
    rw [Program.run_bind_ok _ (ask_run env .isShutdown w)]
    cases env.answer w.clock .isShutdown <;> exact ⟨_, rfl, rfl⟩

end Run

/-! ## Submitting a result again -/

namespace SessionProjection

variable {p q : SessionProjection} {runId callId : String} {result : Json}

/-- What a session becomes: events are accepted, and the server may be restarted in between. -/
inductive Later (p : SessionProjection) : SessionProjection → Prop
  | refl : Later p p
  | event {q r : SessionProjection} {eventId : Nat} {e : SemanticEvent} (h : Later p q)
      (happly : q.apply eventId e = .ok r) : Later p r
  | restarted {q : SessionProjection} (h : Later p q) : Later p q.reload

/-- The call of a client has this result. -/
structure Holds (p : SessionProjection) (runId callId : String) (result : Json) : Prop where
  request : ∃ run request, p.runs.get? runId = some run ∧
    RunRequest.ofJson? run.request = some request ∧ request.ownTranscript = false
  call : ∃ call, p.call? runId callId = some call ∧ call.native = false ∧ call.result = some result

theorem Holds.apply {eventId : Nat} {e : SemanticEvent} (hp : p.Holds runId callId result)
    (h : p.apply eventId e = .ok q) : q.Holds runId callId result where
  request := by
    obtain ⟨run, request, hrun, hrequest, hown⟩ := hp.request
    obtain ⟨run', hrun', hsame⟩ := apply_request h hrun
    exact ⟨run', request, hrun', hsame ▸ hrequest, hown⟩
  call := by
    obtain ⟨call, hcall, hnative, hresult⟩ := hp.call
    have hchange := apply_call h runId callId
    rw [hcall] at hchange
    generalize q.call? runId callId = after at hchange
    cases hchange with
    | same => exact ⟨call, rfl, hnative, hresult⟩
    | claimed _ _ _ _ => exact ⟨_, rfl, hnative, hresult⟩
    | answered _ _ hopen =>
      rw [hresult] at hopen
      cases hopen

theorem Holds.reload (hp : p.Holds runId callId result) : p.reload.Holds runId callId result where
  request := by
    obtain ⟨run, request, hrun, hrequest, hown⟩ := hp.request
    refine ⟨run.reload, request, ?_, hrequest, hown⟩
    change (p.runs.mapValues RunProjection.reload).get? runId = _
    rw [SortedMap.get?_mapValues, hrun]
    rfl
  call := by
    obtain ⟨call, hcall, hrest⟩ := hp.call
    refine ⟨call, ?_, hrest⟩
    obtain ⟨run, hrun, hcall⟩ := Option.bind_eq_some_iff.mp hcall
    change ((p.runs.mapValues RunProjection.reload).get? runId).bind _ = _
    rw [SortedMap.get?_mapValues, hrun]
    exact hcall

theorem Holds.later (hp : p.Holds runId callId result) (h : p.Later q) :
    q.Holds runId callId result := by
  induction h with
  | refl => exact hp
  | event _ happly ih => exact ih.apply happly
  | restarted _ ih => exact ih.reload

/-- The call keeps its result; only the status of the run and the decision are looked at anew. -/
theorem Holds.admitToolResult (hp : p.Holds runId callId result) (submitted : Json) :
    ((p.runs.get? runId).map (·.status) = some .requiresAction ∧
        p.callDecision runId callId = some .allow →
      p.admitToolResult runId callId submitted =
        if result = submitted then .ok none else .error (.toolResultConflict callId)) ∧
    (∀ outcome, p.admitToolResult runId callId submitted = .ok outcome →
      (p.runs.get? runId).map (·.status) = some .requiresAction ∧
        p.callDecision runId callId = some .allow) := by
  obtain ⟨run, request, hrun, hrequest, hown⟩ := hp.request
  obtain ⟨call, hcall, hnative, hresult⟩ := hp.call
  rw [call?, hrun, Option.bind_some] at hcall
  rw [hrun]
  constructor
  · rintro ⟨hstatus, hdecision⟩
    have hawaited := awaitedRun_eq_ok.mpr ⟨hrun, Option.some.inj hstatus, request, hrequest, hown⟩
    have hawaited' := awaitedCall_eq_ok.mpr ⟨hcall, hnative, hdecision⟩
    rw [admitToolResult_eq hawaited hawaited', hresult]
  · intro outcome h
    obtain ⟨run', call', hrun', hcall'⟩ := admitToolResult_eq_ok h
    obtain ⟨hrun', hstatus, -⟩ := awaitedRun_eq_ok.mp hrun'
    cases hrun.symm.trans hrun'
    exact ⟨congrArg some hstatus, (awaitedCall_eq_ok.mp hcall').2.2⟩

/-- The events of a result are accepted. -/
theorem applyAll_submissionEvents {run : RunProjection} {call : ToolCallProjection}
    (hrun : p.runs.get? runId = some run) (hcall : run.toolCalls.get? callId = some call)
    (hopen : call.result = none) (result : Json) (allReady : Bool) :
    ∃ q, p.applyAll (submissionEvents runId callId call result allReady) = .ok q ∧
      q.runs = p.runs.insert runId { run with
        toolCalls := run.toolCalls.insert callId { call with result := some result } } ∧
      q.pendingPermissions = p.pendingPermissions := by
  obtain ⟨q, hq, hruns, hpermissions⟩ : ∃ q, p.apply (p.state.lastEventId.getD 0 + 1)
      (.toolResult runId callId call.agentId call.toolName result) = .ok q ∧
      q.runs = p.runs.insert runId { run with
        toolCalls := run.toolCalls.insert callId { call with result := some result } } ∧
      q.pendingPermissions = p.pendingPermissions :=
    ⟨_, apply_toolResult_iff.mpr ⟨run, call, hrun, hcall, .inl hopen, rfl⟩, rfl, rfl⟩
  cases allReady with
  | false => exact ⟨q, (applyAll_cons hq).trans rfl, hruns, hpermissions⟩
  | true => exact ⟨_, (applyAll_cons hq).trans rfl, hruns, hpermissions⟩

end SessionProjection

section Resubmission

variable (env : Surroundings) {w w' : World} {sessionId runId callId : String}
  {p : SessionProjection} {result : Json}

/-- A submission that succeeds has passed its checks. -/
theorem submitToolResult_eq_ok (hw : w.Sound) (hview : w.view sessionId = some p)
    (h : (submitToolResult sessionId runId callId result).run (World.handle env) w = (.ok (), w')) :
    env.Mutable w.tick sessionId ∧ ∃ outcome, p.admitToolResult runId callId result = .ok outcome ∧
      ∃ q, w'.view sessionId = some q ∧ match outcome with
        | none => q = p
        | some (call, allReady) =>
          p.applyAll (submissionEvents runId callId call result allReady) = .ok q := by
  rw [submitToolResult, Program.run_bind_eq_ok] at h
  obtain ⟨_, w₁, hadmit, h⟩ := h
  have hup : env.answer w.clock .isShutdown = false := by
    rw [admitSubmission, Program.run_bind_ok _ (ask_run env .isShutdown w)] at hadmit
    cases hshutdown : env.answer w.clock .isShutdown with
    | false => rfl
    | true =>
      rw [hshutdown] at hadmit
      cases hadmit
  obtain ⟨hpass, hrefuse⟩ := admitSubmission_run env hw hview hup
  have hmutable : env.Mutable w.tick sessionId := by
    by_contra hmutable
    obtain ⟨e, w₂, hrun⟩ := hrefuse hmutable
    rw [hrun] at hadmit
    cases hadmit
  obtain ⟨w₁', hreads, hadmit'⟩ := hpass hmutable
  rw [hadmit'] at hadmit
  cases hadmit
  obtain ⟨allReady, w₂, hrecord, hwake⟩ := (Program.run_bind_eq_ok _).mp h
  obtain ⟨w₃, hreads₃, hrun⟩ := recordToolResult_run env (hreads.sound hw)
    ((hreads.view _).trans hview) runId callId result
  rw [hrun] at hrecord
  obtain ⟨w₄, hwake', hstore⟩ := wakeWorker_run env sessionId allReady w₂
  rw [hwake'] at hwake
  cases hwake
  have hview₃ : w₃.view sessionId = some p := by rw [hreads₃.view, hreads.view, hview]
  refine ⟨hmutable, ?_⟩
  rcases hadmitted : p.admitToolResult runId callId result with e | _ | ⟨call, ready⟩
  · rw [hadmitted] at hrecord
    cases hrecord
  · rw [hadmitted] at hrecord
    cases hrecord
    exact ⟨none, rfl, p, by rw [World.view, hstore]; exact hview₃, rfl⟩
  · rw [hadmitted] at hrecord
    obtain ⟨records, w₅, happend, hret⟩ := (Program.run_bind_eq_ok _).mp hrecord
    cases hret
    refine ⟨some (call, allReady), rfl, ?_⟩
    cases happly : p.applyAll (submissionEvents runId callId call result allReady) with
    | error e =>
      rw [appendMany_run_error env (hreads₃.sound (hreads.sound hw)) hview₃ happly] at happend
      cases happend
    | ok q =>
      obtain ⟨records', w₆, happend', -, hview', -⟩ :=
        appendMany_run env (hreads₃.sound (hreads.sound hw)) hview₃ happly
      rw [happend'] at happend
      cases happend
      exact ⟨q, by rw [World.view, hstore]; exact hview', happly⟩

/-- After a submission that succeeds the call has its result. -/
theorem submitToolResult_holds (hw : w.Sound) (hview : w.view sessionId = some p)
    (h : (submitToolResult sessionId runId callId result).run (World.handle env) w = (.ok (), w')) :
    ∃ q, w'.view sessionId = some q ∧ q.Holds runId callId result := by
  obtain ⟨-, outcome, hadmitted, q, hq, houtcome⟩ := submitToolResult_eq_ok env hw hview h
  refine ⟨q, hq, ?_⟩
  obtain ⟨run, call, hawaited, hawaited'⟩ := SessionProjection.admitToolResult_eq_ok hadmitted
  obtain ⟨hrun, -, request, hrequest, hown⟩ := SessionProjection.awaitedRun_eq_ok.mp hawaited
  obtain ⟨hcall, hnative, -⟩ := SessionProjection.awaitedCall_eq_ok.mp hawaited'
  rw [SessionProjection.admitToolResult_eq hawaited hawaited'] at hadmitted
  split at hadmitted
  · next existing hresult =>
    obtain ⟨rfl, hnone⟩ := Except.ite_ok_eq_ok.mp hadmitted
    cases hnone
    subst houtcome
    refine ⟨⟨run, request, hrun, hrequest, hown⟩, call, ?_, hnative, hresult⟩
    rw [SessionProjection.call?, hrun]
    exact hcall
  · next hopen =>
    cases hadmitted
    obtain ⟨q', happly, hruns, -⟩ :=
      SessionProjection.applyAll_submissionEvents hrun hcall hopen result _
    cases houtcome.symm.trans happly
    have hrun' := hruns ▸ SortedMap.get?_insert_self p.runs runId _
    constructor
    · exact ⟨_, request, hrun', hrequest, hown⟩
    · refine ⟨{ call with result := some result }, ?_, hnative, rfl⟩
      rw [SessionProjection.call?, hrun', Option.bind_some, SortedMap.get?_insert_self]

/-- Submitting the result again succeeds, appends nothing and starts no worker, while another result
is a conflict. -/
def Resubmittable (env : Surroundings) (w : World) (sessionId runId callId : String)
    (result : Json) : Prop :=
  (∃ w', (submitToolResult sessionId runId callId result).run (World.handle env) w = (.ok (), w') ∧
    w.Reads w') ∧
  ∀ other ≠ result, ((submitToolResult sessionId runId callId other).run (World.handle env) w).1 =
    .error (.toolResultConflict callId)

/-- **A result can be submitted again exactly as long as the run waits for its calls**: for every
submission that succeeded and every later state of the session, on a server that is not shutting
down, submitting the same result again succeeds without an event or a worker, and another result is
a conflict, if and only if the run is waiting for action, the call's decision still is to allow it,
and the project of the session is not being deleted. -/
theorem toolResult_resubmitted_iff (env env' : Surroundings) {w w₁ w₂ : World}
    {p p₁ p₂ : SessionProjection} (hw : w.Sound) (hview : w.view sessionId = some p)
    (hok : (submitToolResult sessionId runId callId result).run (World.handle env) w = (.ok (), w₁))
    (hview₁ : w₁.view sessionId = some p₁) (hlater : p₁.Later p₂) (hw₂ : w₂.Sound)
    (hview₂ : w₂.view sessionId = some p₂) (hup : env'.answer w₂.clock .isShutdown = false) :
    Resubmittable env' w₂ sessionId runId callId result ↔
      ((p₂.runs.get? runId).map (·.status) = some .requiresAction ∧
        p₂.callDecision runId callId = some .allow) ∧ env'.Mutable w₂.tick sessionId := by
  obtain ⟨q, hq, hholds⟩ := submitToolResult_holds env hw hview hok
  cases hview₁.symm.trans hq
  have hholds₂ := hholds.later hlater
  constructor
  · rintro ⟨⟨w', hrun, -⟩, -⟩
    obtain ⟨hmutable, outcome, hadmitted, -⟩ := submitToolResult_eq_ok env' hw₂ hview₂ hrun
    exact ⟨(hholds₂.admitToolResult result).2 outcome hadmitted, hmutable⟩
  · rintro ⟨hwaits, hmutable⟩
    obtain ⟨w₃, hreads₃, hadmit⟩ := (admitSubmission_run env' hw₂ hview₂ hup).1 hmutable
    -- what happens under the lock, whatever is submitted
    have hrecord : ∀ submitted, ∃ w₄, w₂.Reads w₄ ∧
        (submitToolResult sessionId runId callId submitted).run (World.handle env') w₂ =
          if result = submitted then (.ok (), w₄) else (.error (.toolResultConflict callId), w₄) := by
      intro submitted
      obtain ⟨w₄, hreads₄, hrun⟩ := recordToolResult_run env' (hreads₃.sound hw₂)
        ((hreads₃.view _).trans hview₂) runId callId submitted
      rw [(hholds₂.admitToolResult submitted).1 hwaits] at hrun
      refine ⟨w₄, hreads₃.trans hreads₄, ?_⟩
      rw [submitToolResult, Program.run_bind_ok _ hadmit]
      split
      · next hsame =>
        rw [if_pos hsame] at hrun
        rw [Program.run_bind_ok _ hrun]
        rfl
      · next hother =>
        rw [if_neg hother] at hrun
        rw [Program.run_bind_error _ hrun]
    constructor
    · obtain ⟨w₄, hreads₄, hrun⟩ := hrecord result
      exact ⟨w₄, by rw [hrun, if_pos rfl], hreads₄⟩
    · intro other hother
      obtain ⟨w₄, -, hrun⟩ := hrecord other
      rw [hrun, if_neg (Ne.symm hother)]

/-! ### A session that waits for a client -/

/-- A run with a call of a client, which may run. -/
def waitingEvents (callIds : List String) (body : Json) : List SemanticEvent :=
  [.runQueued "r" none "p" "m" (RunRequest.toJson {
      provider := "p", model := "m", input := .str "hello", agent := none, variant := none, body }),
    .sessionPhaseChanged .created .running none, .runStarted "r" "a" 1] ++
  (callIds.map fun callId => .toolCallEmitted "r" "m" callId "agent" "lookup" (.obj []) "" false) ++
  [.runRequiresAction "r" callIds] ++
  callIds.flatMap fun callId =>
    [.permissionRequested callId "r" (some callId) "agent" "lookup" (.obj []),
      .permissionResolved callId .allow none none none none]

/-- A server with this session. -/
def waitingWorld (callIds : List String) (body : Json) : World :=
  World.holding (waitingEvents callIds body)

/-- The session after a result has been submitted. -/
def answeredWorld (callIds : List String) (callId : String) (result : Json) : World :=
  ((submitToolResult "s" "r" callId result).run (World.handle (.plain {}))
    (waitingWorld callIds (.obj []))).2

/-- The run has gone on. -/
def resumedWorld : World :=
  ((append "s" (.runStarted "r" "b" 2)).run (World.handle (.plain {}))
    (answeredWorld ["c"] "c" (.str "v"))).2

/-- The result of the only call is accepted, the run goes on, and the same result is refused. -/
theorem toolResult_refused_again :
    ((submitToolResult "s" "r" "c" (.str "v")).run (World.handle (.plain {}))
        (waitingWorld ["c"] (.obj []))).1 = .ok () ∧
      (∃ p₁ p₂, (answeredWorld ["c"] "c" (.str "v")).view "s" = some p₁ ∧ p₁.Later p₂ ∧
        resumedWorld.view "s" = some p₂) ∧
      (Surroundings.plain {}).answer resumedWorld.clock .isShutdown = false ∧
      ((submitToolResult "s" "r" "c" (.str "v")).run (World.handle (.plain {})) resumedWorld).1 =
        .error (.conflict "run is not awaiting tool results") ∧
      ¬ Resubmittable (.plain {}) resumedWorld "s" "r" "c" (.str "v") := by
  have hrefused : ((submitToolResult "s" "r" "c" (.str "v")).run (World.handle (.plain {}))
      resumedWorld).1 = .error (.conflict "run is not awaiting tool results") := by
    decide +kernel
  have happly : ((answeredWorld ["c"] "c" (.str "v")).view "s").bind (fun p =>
      (p.apply (p.state.lastEventId.getD 0 + 1) (.runStarted "r" "b" 2)).toOption) =
        resumedWorld.view "s" ∧ (resumedWorld.view "s").isSome := by
    decide +kernel
  refine ⟨by decide +kernel, ?_, by decide +kernel, hrefused, ?_⟩
  · obtain ⟨p₂, hp₂⟩ := Option.isSome_iff_exists.mp happly.2
    rw [hp₂] at happly
    obtain ⟨p₁, hp₁, hq⟩ := Option.bind_eq_some_iff.mp happly.1
    refine ⟨p₁, p₂, hp₁, .event .refl (Except.toOption_eq_some.mp hq), hp₂⟩
  · rintro ⟨⟨w', hrun, -⟩, -⟩
    rw [hrun] at hrefused
    cases hrefused

/-- While another call is open, the same result is accepted again. -/
theorem toolResult_resubmitted_waiting :
    Resubmittable (.plain {}) (answeredWorld ["c", "d"] "c" (.str "v")) "s" "r" "c" (.str "v") := by
  have hok : ((submitToolResult "s" "r" "c" (.str "v")).run (World.handle (.plain {}))
      (waitingWorld ["c", "d"] (.obj []))).1 = .ok () := by
    decide +kernel
  have hviews : ((waitingWorld ["c", "d"] (.obj [])).view "s").isSome ∧
      ((answeredWorld ["c", "d"] "c" (.str "v")).view "s").map (fun p =>
        ((p.runs.get? "r").map (·.status), p.callDecision "r" "c")) =
          some (some .requiresAction, some .allow) := by
    decide +kernel
  obtain ⟨p, hp⟩ := Option.isSome_iff_exists.mp hviews.1
  obtain ⟨q, hq, hwaits⟩ := Option.map_eq_some_iff.mp hviews.2
  have hsound : (answeredWorld ["c", "d"] "c" (.str "v")).Sound :=
    World.run_sound _ (World.holding_sound _) _
  refine (toolResult_resubmitted_iff (.plain {}) (.plain {}) (World.holding_sound _) hp
    (Prod.ext hok rfl) hq .refl hsound hq rfl).mpr ⟨Prod.mk.inj hwaits, ?_⟩
  intro session projectId _ _
  rfl

end Resubmission

/-! ## Submissions that interleave -/

/-- An operation of the supervisor, or one on the lock of the session. -/
inductive LockedOp where
  | lock
  | unlock
  | server (op : ServerOp)

/-- What such an operation replies. -/
abbrev LockedOp.Reply : LockedOp → Type
  | .lock | .unlock => Unit
  | .server op => op.Reply

/-- The operations with the lock as a signature. -/
abbrev lockedSignature : Signature where
  Op := LockedOp
  Reply := LockedOp.Reply

/-- A program that leaves the lock alone. -/
def lockless {ε α : Type} : Program serverSignature ε α → Program lockedSignature ε α
  | .ret a => .ret a
  | .fail e => .fail e
  | .call op k => .call (.server op) fun r => lockless (k r)

/-- `submit_tool_result` with the lock of the session. -/
def lockedSubmission (sessionId runId callId : String) (result : Json) :
    Program lockedSignature StoreError Unit := do
  lockless (admitSubmission sessionId)
  .call .lock .ret
  let outcome ← (lockless (recordToolResult sessionId runId callId result)).attempt
  .call .unlock .ret
  match outcome with
  | .ok allReady => lockless (wakeWorker sessionId allReady)
  | .error e => .fail e

/-- Whether the operation commits events. -/
def ServerOp.commits : ServerOp → Bool
  | .store (.append _ _) => true
  | _ => false

/-- Whether the operation resumes the queue. -/
def ServerOp.resumes : ServerOp → Bool
  | .store (.append _ events) => events.any fun
    | .queueResumed => true
    | _ => false
  | _ => false

/-- Whether the operation starts a worker. -/
def ServerOp.wakes : ServerOp → Bool
  | .startWorker _ => true
  | _ => false

/-- What the calls share: the store, the lock, and what they have done. -/
structure SharedSession where
  world : World
  holder : Option Nat := none
  /-- The operations so far, each with the call that performed it. -/
  history : List (Nat × ServerOp) := []

namespace SharedSession

/-- The operation of call `i` is noted down. -/
def note (s : SharedSession) (i : Nat) (op : ServerOp) (w : World) : SharedSession :=
  { s with world := w, history := s.history ++ [(i, op)] }

/-- An operation of call `i`; it waits for the lock where another call has it. -/
def handle (env : Surroundings) (i : Nat) :
    (op : LockedOp) → SharedSession → Option (op.Reply × SharedSession)
  | .lock, s => match s.holder with
    | none => some ((), { s with holder := some i })
    | some _ => none
  | .unlock, s => some ((), { s with holder := none })
  | .server op, s =>
    let r := World.handle env op s.world
    some (r.1, s.note i op r.2)

def commits (s : SharedSession) : List (Nat × ServerOp) := s.history.filter (·.2.commits)

def wakes (s : SharedSession) : List (Nat × ServerOp) := s.history.filter (·.2.wakes)

/-- The calls that have recorded their results, in order. -/
def done (s : SharedSession) : List Nat := s.commits.map Prod.fst

end SharedSession

/-- The submissions of the results of some calls. -/
def submissions (sessionId runId : String) (results : String → Json) (order : List String)
    (w : World) : Tasks lockedSignature StoreError Unit SharedSession where
  state := { world := w }
  programs := order.map fun callId => lockedSubmission sessionId runId callId (results callId)

/-! ### The runs that are answered -/

namespace RunProjection

/-- The calls without a result. -/
def openCalls (run : RunProjection) : List String :=
  (run.toolCalls.values.filter (·.result.isNone)).map (·.callId)

/-- The run whose open calls have their results. -/
def answered (run : RunProjection) (results : String → Option Json) : RunProjection :=
  { run with toolCalls := run.toolCalls.mapValues fun call =>
      { call with result := call.result.or (results call.callId) } }

end RunProjection

/-- The results of some calls. -/
def resultsOf (results : String → Json) (callIds : List String) (callId : String) : Option Json :=
  if callId ∈ callIds then some (results callId) else none

/-- A run that waits for calls of clients, all of which may run. -/
structure SessionProjection.Awaits (p : SessionProjection) (runId : String) (run : RunProjection) :
    Prop where
  awaited : p.awaitedRun runId = .ok run
  calls : ∀ call ∈ run.toolCalls.values, call.result = none →
    call.native = false ∧ p.callDecision runId call.callId = some .allow

section Answered

variable {p : SessionProjection} {runId callId : String} {run : RunProjection}
  {call : ToolCallProjection} {results : String → Json} {callIds : List String}

/-- The calls of a run are filed under their ids. -/
theorem SessionProjection.WellKeyed.toolCalls (hp : p.WellKeyed)
    (hrun : p.runs.get? runId = some run) (hcall : run.toolCalls.get? callId = some call) :
    call.callId = callId :=
  have hcall' : p.call? runId callId = some call := by
    rw [SessionProjection.call?, hrun]
    exact hcall
  hp.call hcall'

theorem SessionProjection.WellKeyed.openCalls_nodup (hp : p.WellKeyed)
    (hrun : p.runs.get? runId = some run) : run.openCalls.Nodup := by
  have hkeys : run.toolCalls.values.map (·.callId) = run.toolCalls.keys := by
    rw [SortedMap.values, SortedMap.keys, List.map_map]
    refine List.map_congr_left fun entry hentry => ?_
    exact hp.toolCalls hrun ((SortedMap.get?_eq_some_iff _).mpr hentry)
  refine List.Nodup.sublist (List.filter_sublist.map _) ?_
  rw [hkeys]
  exact run.toolCalls.nodup_keys

theorem SessionProjection.WellKeyed.mem_openCalls (hp : p.WellKeyed)
    (hrun : p.runs.get? runId = some run) :
    callId ∈ run.openCalls ↔ ∃ call, run.toolCalls.get? callId = some call ∧ call.result = none := by
  rw [RunProjection.openCalls, List.mem_map]
  constructor
  · rintro ⟨call, hmem, rfl⟩
    obtain ⟨hvalue, hopen⟩ := List.mem_filter.mp hmem
    obtain ⟨key, hkey⟩ := (SortedMap.mem_values_iff _).mp hvalue
    exact ⟨call, hp.toolCalls hrun hkey ▸ hkey, Option.isNone_iff_eq_none.mp hopen⟩
  · rintro ⟨call, hcall, hopen⟩
    refine ⟨call, List.mem_filter.mpr ⟨(SortedMap.mem_values_iff _).mpr ⟨_, hcall⟩, ?_⟩,
      hp.toolCalls hrun hcall⟩
    rw [hopen]
    rfl

theorem RunProjection.answered_get? (run : RunProjection) (answers : String → Option Json)
    (callId : String) : (run.answered answers).toolCalls.get? callId =
      (run.toolCalls.get? callId).map fun call =>
        { call with result := call.result.or (answers call.callId) } :=
  SortedMap.get?_mapValues ..

theorem RunProjection.answered_nil (run : RunProjection) (results : String → Json) :
    run.answered (resultsOf results []) = run := by
  have hcalls : (run.answered (resultsOf results [])).toolCalls = run.toolCalls := by
    refine SortedMap.ext_get? fun callId => ?_
    rw [answered_get?]
    simp [resultsOf]
  exact congrArg (fun calls => { run with toolCalls := calls }) hcalls

/-- One more result. -/
theorem SessionProjection.WellKeyed.answered_insert (hp : p.WellKeyed)
    (hrun : p.runs.get? runId = some run) (hcall : run.toolCalls.get? callId = some call)
    (hopen : call.result = none) (hnew : callId ∉ callIds) :
    { run.answered (resultsOf results callIds) with
      toolCalls := (run.answered (resultsOf results callIds)).toolCalls.insert callId
        { call with result := some (results callId) } } =
      run.answered (resultsOf results (callIds ++ [callId])) := by
  have hcalls : (run.answered (resultsOf results callIds)).toolCalls.insert callId
      { call with result := some (results callId) } =
        (run.answered (resultsOf results (callIds ++ [callId]))).toolCalls := by
    refine SortedMap.ext_get? fun key => ?_
    rw [SortedMap.get?_insert, RunProjection.answered_get?, RunProjection.answered_get?]
    split
    · next hkey =>
      subst hkey
      rw [hcall]
      simp [resultsOf, hopen, hp.toolCalls hrun hcall]
    · next hkey =>
      rcases hother : run.toolCalls.get? key with _ | other
      · rfl
      · simp [resultsOf, hp.toolCalls hrun hother, hkey]
  exact congrArg (fun calls => { run with toolCalls := calls }) hcalls

/-- Once all open calls have their results, it does not matter in which order they came. -/
theorem SessionProjection.WellKeyed.answered_all (hp : p.WellKeyed)
    (hrun : p.runs.get? runId = some run) (hall : ∀ callId ∈ run.openCalls, callId ∈ callIds) :
    run.answered (resultsOf results callIds) = run.answered fun callId => some (results callId) := by
  have hcalls : (run.answered (resultsOf results callIds)).toolCalls =
      (run.answered fun callId => some (results callId)).toolCalls := by
    refine SortedMap.ext_get? fun key => ?_
    rw [RunProjection.answered_get?, RunProjection.answered_get?]
    rcases hcall : run.toolCalls.get? key with _ | call
    · rfl
    · rcases hresult : call.result with _ | result
      · have hmem := hall key ((hp.mem_openCalls hrun).mpr ⟨call, hcall, hresult⟩)
        simp [resultsOf, hresult, hp.toolCalls hrun hcall, hmem]
      · simp [hresult]
  exact congrArg (fun calls => { run with toolCalls := calls }) hcalls

end Answered

/-! ### What the submissions know of each other -/

namespace SharedSession

/-- The operations that have resumed the queue. -/
def resumed (s : SharedSession) : List (Nat × ServerOp) := s.history.filter (·.2.resumes)

/-- The calls whose results are recorded. -/
def callIds (order : List String) (s : SharedSession) : List String :=
  s.done.filterMap (order[·]?)

/-- All results are recorded, that of call `i` last. -/
def IsLast (order : List String) (s : SharedSession) (i : Nat) : Prop :=
  s.done.getLast? = some i ∧ s.done.length = order.length

variable (s : SharedSession) (i : Nat) (op : ServerOp) (w : World)

theorem note_done : (s.note i op w).done = s.done ++ if op.commits then [i] else [] := by
  rw [done, commits, note, List.filter_append, List.map_append]
  cases h : op.commits <;> simp [h, done, commits]

theorem note_wakes : (s.note i op w).wakes = s.wakes ++ if op.wakes then [(i, op)] else [] := by
  rw [wakes, note, List.filter_append]
  cases h : op.wakes <;> simp [h, wakes]

theorem note_resumed :
    (s.note i op w).resumed = s.resumed ++ if op.resumes then [(i, op)] else [] := by
  rw [resumed, note, List.filter_append]
  cases h : op.resumes <;> simp [h, resumed]

end SharedSession

/-- Where a submission is. -/
inductive SubmissionStage where
  | outside
  | inside
  /-- It has read the session, when these had recorded their results. -/
  | read (done : List Nat)
  /-- It has recorded its result, the last one or not. -/
  | recorded (allReady : Bool)
  /-- It has given the lock up, and is to start the worker. -/
  | waking
  | ended

section Submissions

variable (sessionId runId : String) (results : String → Json) (order : List String)
  (p : SessionProjection) (run : RunProjection)

/-- What holds of the session while results are submitted. -/
structure Submitting (s : SharedSession) : Prop where
  sound : s.world.Sound
  view : ∃ q, s.world.view sessionId = some q ∧ q.pendingPermissions = p.pendingPermissions ∧
    q.runs.get? runId = some (run.answered (resultsOf results (s.callIds order)))
  nodup : s.done.Nodup
  bounded : ∀ i ∈ s.done, i < order.length
  held : ∀ i, s.holder = some i → i < order.length
  waits : s.done.length < order.length → s.resumed = [] ∧ s.wakes = []
  full : s.done.length = order.length → ∃ i, s.done.getLast? = some i ∧
    s.resumed.map Prod.fst = [i]

/-- What a submission knows. -/
def SubmissionStage.knows (i : Nat) (s : SharedSession) : SubmissionStage → Prop
  | .outside => i ∉ s.done ∧ s.holder ≠ some i
  | .inside => i ∉ s.done ∧ s.holder = some i
  | .read done => s.done = done ∧ i ∉ s.done ∧ s.holder = some i
  | .recorded allReady => s.done.getLast? = some i ∧ s.holder = some i ∧ s.wakes = [] ∧
      allReady = decide (s.done.length = order.length)
  | .waking => s.IsLast order i ∧ s.holder ≠ some i ∧ s.wakes = []
  | .ended => i ∈ s.done ∧ s.holder ≠ some i ∧
      (s.IsLast order i → s.wakes = [(i, .startWorker sessionId)])

/-- The discipline of the submissions: whoever holds the lock need not wait. -/
def submissionDiscipline : Discipline lockedSignature SharedSession SubmissionStage where
  inv := Submitting sessionId runId results order p run
  knows i stage s := stage.knows sessionId order i s
  free i s := s.holder = none ∨ s.holder = some i

variable {sessionId runId results order p run} {env : Surroundings} {s s' : SharedSession} {i : Nat}

theorem SubmissionStage.knows.congr {stage : SubmissionStage}
    (h : stage.knows sessionId order i s) (hdone : s'.done = s.done)
    (hholder : s'.holder = s.holder) (hwakes : s'.wakes = s.wakes) :
    stage.knows sessionId order i s' := by
  cases stage <;>
    simpa only [knows, SharedSession.IsLast, hdone, hholder, hwakes] using h

/-- An operation that commits nothing and starts no worker. -/
theorem Submitting.note_quiet (h : Submitting sessionId runId results order p run s)
    {op : ServerOp} {w : World} (hreads : s.world.Reads w) (hcommits : op.commits = false)
    (hwakes : op.wakes = false) :
    Submitting sessionId runId results order p run (s.note i op w) := by
  have hresumes : op.resumes = false := by
    unfold ServerOp.resumes
    split
    · cases hcommits
    · rfl
  have hdone : (s.note i op w).done = s.done := by simp [SharedSession.note_done, hcommits]
  have hnone : (s.note i op w).wakes = s.wakes := by simp [SharedSession.note_wakes, hwakes]
  have hsame : (s.note i op w).resumed = s.resumed := by
    simp [SharedSession.note_resumed, hresumes]
  refine ⟨hreads.sound h.sound, ?_, hdone ▸ h.nodup, ?_, h.held, ?_, ?_⟩
  · obtain ⟨q, hview, hrest⟩ := h.view
    refine ⟨q, (hreads.view sessionId).trans hview, ?_⟩
    rwa [SharedSession.callIds, hdone]
  · rw [hdone]
    exact h.bounded
  · rw [hdone, hsame, hnone]
    exact h.waits
  · rw [hdone, hsame]
    exact h.full

/-! ### Readiness -/

theorem Submitting.done_subperm (h : Submitting sessionId runId results order p run s)
    (hi : i < order.length) (hnew : i ∉ s.done) :
    (s.done ++ [i]).Subperm (List.range order.length) := by
  refine List.Nodup.subperm ?_ ?_
  · exact h.nodup.append (List.nodup_singleton i) (by simpa using hnew)
  · intro j hj
    rcases List.mem_append.mp hj with hj | hj
    · exact List.mem_range.mpr (h.bounded j hj)
    · obtain rfl := List.mem_singleton.mp hj
      exact List.mem_range.mpr hi

theorem Submitting.mem_callIds (h : Submitting sessionId runId results order p run s)
    (hnodup : order.Nodup) {callId : String} (hi : order[i]? = some callId) :
    callId ∈ s.callIds order ↔ i ∈ s.done := by
  rw [SharedSession.callIds, List.mem_filterMap]
  constructor
  · rintro ⟨j, hj, hcall⟩
    have hji : j = i := (List.getElem?_inj (h.bounded j hj) hnodup).mp (hcall.trans hi.symm)
    exact hji ▸ hj
  · exact fun hdone => ⟨i, hdone, hi⟩

section Ready

variable (hp : p.WellKeyed) (hawaits : p.Awaits runId run) (horder : order.Perm run.openCalls)

include hp hawaits horder

theorem order_nodup : order.Nodup :=
  horder.nodup_iff.mpr (hp.openCalls_nodup (SessionProjection.awaitedRun_eq_ok.mp hawaits.awaited).1)

/-- A result completes the run if and only if all others are recorded. -/
theorem Submitting.allReady (h : Submitting sessionId runId results order p run s)
    {callId : String} (hi : order[i]? = some callId) (hnew : i ∉ s.done) :
    ((run.answered (resultsOf results (s.callIds order))).toolCalls.values.all fun candidate =>
      candidate.callId = callId || candidate.result.isSome) =
        decide (s.done.length + 1 = order.length) := by
  obtain ⟨hrun, -⟩ := SessionProjection.awaitedRun_eq_ok.mp hawaits.awaited
  have hnodup := order_nodup hp hawaits horder
  have hlt : i < order.length := (List.getElem?_eq_some_iff.mp hi).1
  have hsub := h.done_subperm hlt hnew
  have hvalues : (run.answered (resultsOf results (s.callIds order))).toolCalls.values =
      run.toolCalls.values.map fun call =>
        { call with result := call.result.or (resultsOf results (s.callIds order) call.callId) } :=
    SortedMap.values_mapValues _ _
  rw [hvalues, Bool.eq_iff_iff, decide_eq_true_iff, List.all_eq_true]
  constructor
  · intro hall
    -- every call of the order is recorded, or is the one at hand
    have hmem : List.range order.length ⊆ s.done ++ [i] := by
      intro j hj
      have hj : j < order.length := List.mem_range.mp hj
      obtain ⟨call, hcall, hopen⟩ := (hp.mem_openCalls hrun).mp
        (horder.subset (List.getElem_mem hj))
      have hready := hall _ (List.mem_map_of_mem ((SortedMap.mem_values_iff _).mpr ⟨_, hcall⟩))
      rw [hp.toolCalls hrun hcall, hopen, Option.none_or, resultsOf] at hready
      rcases (Bool.or_eq_true _ _).mp hready with hsame | hanswered
      · have hplace : order[j]? = order[i]? := by
          rw [hi, List.getElem?_eq_getElem hj, of_decide_eq_true hsame]
        have hji : j = i := (List.getElem?_inj hj hnodup).mp hplace
        exact List.mem_append.mpr (.inr (List.mem_singleton.mpr hji))
      · by_cases hrecorded : order[j] ∈ s.callIds order
        · have hdone := (h.mem_callIds hnodup (List.getElem?_eq_getElem hj)).mp hrecorded
          exact List.mem_append.mpr (.inl hdone)
        · simp [hrecorded] at hanswered
    have hle := (List.nodup_range.subperm hmem).length_le
    have hge := hsub.length_le
    simp only [List.length_range, List.length_append, List.length_singleton] at hle hge
    omega
  · intro hlength value hvalue
    obtain ⟨call, hcall, rfl⟩ := List.mem_map.mp hvalue
    obtain ⟨key, hkey⟩ := (SortedMap.mem_values_iff _).mp hcall
    obtain rfl := hp.toolCalls hrun hkey
    rcases hresult : call.result with _ | result
    · -- the place of an open call in the order
      obtain ⟨j, hj, hj'⟩ := List.getElem_of_mem
        (horder.symm.subset ((hp.mem_openCalls hrun).mpr ⟨call, hkey, hresult⟩))
      have hperm := hsub.perm_of_length_le (by simp [hlength])
      have hplace := hperm.symm.subset (List.mem_range.mpr hj)
      rw [Bool.or_eq_true]
      rcases List.mem_append.mp hplace with hdone | hlast
      · refine .inr ?_
        have hrecorded := (h.mem_callIds hnodup ((List.getElem?_eq_getElem hj).trans
          (congrArg some hj'))).mpr hdone
        simp [resultsOf, hrecorded]
      · refine .inl (decide_eq_true ?_)
        obtain rfl := List.mem_singleton.mp hlast
        rw [List.getElem?_eq_getElem hj, hj'] at hi
        exact Option.some.inj hi
    · simp

/-- A submission whose result is not recorded yet passes its checks. -/
theorem Submitting.admit (h : Submitting sessionId runId results order p run s)
    {q : SessionProjection} (hq : s.world.view sessionId = some q) {callId : String}
    (hi : order[i]? = some callId) (hnew : i ∉ s.done) :
    ∃ call, run.toolCalls.get? callId = some call ∧ call.result = none ∧
      (run.answered (resultsOf results (s.callIds order))).toolCalls.get? callId = some call ∧
      q.admitToolResult runId callId (results callId) =
        .ok (some (call, decide (s.done.length + 1 = order.length))) := by
  obtain ⟨hrun, hstatus, request, hrequest, hown⟩ :=
    SessionProjection.awaitedRun_eq_ok.mp hawaits.awaited
  obtain ⟨q', hq', hpermissions, hqrun⟩ := h.view
  cases hq.symm.trans hq'
  have hnodup := order_nodup hp hawaits horder
  obtain ⟨call, hcall, hopen⟩ := (hp.mem_openCalls hrun).mp
    (horder.subset (List.mem_of_getElem? hi))
  have hmissing : callId ∉ s.callIds order := fun hmem =>
    hnew ((h.mem_callIds hnodup hi).mp hmem)
  have hanswered : (run.answered (resultsOf results (s.callIds order))).toolCalls.get? callId =
      some call := by
    have hsame : call.result.or (resultsOf results (s.callIds order) call.callId) = call.result := by
      simp [resultsOf, hopen, hp.toolCalls hrun hcall, hmissing]
    rw [RunProjection.answered_get?, hcall, Option.map_some, hsame]
  obtain ⟨hnative, hdecision⟩ := hawaits.calls call ((SortedMap.mem_values_iff _).mpr ⟨_, hcall⟩)
    hopen
  have hdecided : q.callDecision runId callId = some .allow := by
    rw [SessionProjection.callDecision, hpermissions, ← hp.toolCalls hrun hcall]
    exact hdecision
  have hawaited := SessionProjection.awaitedRun_eq_ok.mpr ⟨hqrun, hstatus, request, hrequest, hown⟩
  have hawaited' := SessionProjection.awaitedCall_eq_ok.mpr ⟨hanswered, hnative, hdecided⟩
  refine ⟨call, hcall, hopen, hanswered, ?_⟩
  rw [SessionProjection.admitToolResult_eq hawaited hawaited', hopen]
  dsimp only
  rw [h.allReady hp hawaits horder hi hnew]

end Ready

section Rules

variable {α : Type} {Q : SubmissionStage → Except StoreError α → Prop} {stage : SubmissionStage}

/-- The rule for an operation that commits nothing and starts no worker; a submission may take note
of the state it is performed in. -/
theorem secure_read {op : ServerOp} {k : op.Reply → Program lockedSignature StoreError α}
    (hcommits : op.commits = false) (hwakes : op.wakes = false)
    (hk : ∀ s, Submitting sessionId runId results order p run s →
      stage.knows sessionId order i s → s.world.Reads (World.handle env op s.world).2 ∧
        ∃ stage' : SubmissionStage, stage'.knows sessionId order i s ∧
          (k (World.handle env op s.world).1).Secure (SharedSession.handle env)
            (submissionDiscipline sessionId runId results order p run) i Q stage') :
    (Program.call (.server op) k : Program lockedSignature StoreError α).Secure
      (SharedSession.handle env) (submissionDiscipline sessionId runId results order p run) i Q
      stage := by
  intro s hs hknows _
  obtain ⟨hreads, stage', hknows', hrest⟩ := hk s hs hknows
  refine ⟨fun _ => ⟨_, _, rfl⟩, fun r s' hr => ?_⟩
  cases hr
  have hsame : ∀ j (stage : SubmissionStage), stage.knows sessionId order j s →
      stage.knows sessionId order j (s.note i op (World.handle env op s.world).2) := by
    intro j stage hstage
    refine hstage.congr ?_ rfl ?_
    · simp [SharedSession.note_done, hcommits]
    · simp [SharedSession.note_wakes, hwakes]
  exact ⟨stage', hs.note_quiet hreads hcommits hwakes, hsame i stage' hknows', fun h => h,
    fun j _ stage h => hsame j stage h, hrest⟩

/-- The rule where it takes no note. -/
theorem secure_quiet {op : ServerOp} {k : op.Reply → Program lockedSignature StoreError α}
    (hcommits : op.commits = false) (hwakes : op.wakes = false)
    (hk : ∀ s, Submitting sessionId runId results order p run s →
      s.world.Reads (World.handle env op s.world).2 ∧
        (k (World.handle env op s.world).1).Secure (SharedSession.handle env)
          (submissionDiscipline sessionId runId results order p run) i Q stage) :
    (Program.call (.server op) k : Program lockedSignature StoreError α).Secure
      (SharedSession.handle env) (submissionDiscipline sessionId runId results order p run) i Q
      stage := by
  refine secure_read hcommits hwakes fun s hs hknows => ?_
  obtain ⟨hreads, hrest⟩ := hk s hs
  exact ⟨hreads, stage, hknows, hrest⟩

/-- The lock is taken where it is free. -/
theorem secure_lock (hi : i < order.length) {k : Program lockedSignature StoreError α}
    (hk : k.Secure (SharedSession.handle env)
      (submissionDiscipline sessionId runId results order p run) i Q .inside) :
    (Program.call .lock fun _ => k : Program lockedSignature StoreError α).Secure
      (SharedSession.handle env) (submissionDiscipline sessionId runId results order p run) i Q
      .outside := by
  intro s hs hknows _
  obtain ⟨hnew, hother⟩ := hknows
  constructor
  · rintro (hfree | hmine)
    · exact ⟨(), { s with holder := some i }, by simp [SharedSession.handle, hfree]⟩
    · exact absurd hmine hother
  · intro r s' hr
    rcases hholder : s.holder with _ | holder
    swap
    · simp [SharedSession.handle, hholder] at hr
    simp only [SharedSession.handle, hholder, Option.some.injEq] at hr
    cases hr
    refine ⟨.inside, ⟨hs.sound, hs.view, hs.nodup, hs.bounded, fun j hj => ?_, hs.waits, hs.full⟩,
      ⟨hnew, rfl⟩, fun _ => .inr rfl, ?_, hk⟩
    · obtain rfl := Option.some.inj hj
      exact hi
    intro j hj stage hstage
    have hne : (some i : Option Nat) ≠ some j := fun h => hj (Option.some.inj h).symm
    cases stage with
    | outside => exact ⟨hstage.1, hne⟩
    | inside => exact absurd (hholder.symm.trans hstage.2) (by simp)
    | read done => exact absurd (hholder.symm.trans hstage.2.2) (by simp)
    | recorded _ => exact absurd (hholder.symm.trans hstage.2.1) (by simp)
    | waking => exact ⟨hstage.1, hne, hstage.2.2⟩
    | ended => exact ⟨hstage.1, hne, hstage.2.2⟩

/-- Where a submission is that has given up the lock. -/
def SubmissionStage.after (allReady : Bool) : SubmissionStage := if allReady then .waking else .ended

theorem SubmissionStage.knows_after {allReady : Bool}
    (h : (SubmissionStage.recorded allReady).knows sessionId order i s) :
    (SubmissionStage.after allReady).knows sessionId order i { s with holder := none } := by
  obtain ⟨hlast, -, hwakes, hready⟩ := h
  cases allReady with
  | true => exact ⟨⟨hlast, of_decide_eq_true hready.symm⟩, by simp, hwakes⟩
  | false =>
    refine ⟨List.mem_of_getLast? hlast, by simp, fun hfull => ?_⟩
    exact absurd hfull.2 (of_decide_eq_false hready.symm)

/-- The lock is given up; the last one is to start the worker. -/
theorem secure_unlock {allReady : Bool} {k : Program lockedSignature StoreError α}
    (hk : k.Secure (SharedSession.handle env)
      (submissionDiscipline sessionId runId results order p run) i Q (.after allReady)) :
    (Program.call .unlock fun _ => k : Program lockedSignature StoreError α).Secure
      (SharedSession.handle env) (submissionDiscipline sessionId runId results order p run) i Q
      (.recorded allReady) := by
  intro s hs hknows _
  have hholder : s.holder = some i := hknows.2.1
  refine ⟨fun _ => ⟨_, _, rfl⟩, fun r s' hr => ?_⟩
  cases hr
  refine ⟨_, ⟨hs.sound, hs.view, hs.nodup, hs.bounded, by simp, hs.waits, hs.full⟩,
    SubmissionStage.knows_after hknows, fun _ => .inl rfl, ?_, hk⟩
  intro j hj other hother
  have hne : (some i : Option Nat) ≠ some j := fun h => hj (Option.some.inj h).symm
  cases other with
  | outside => exact ⟨hother.1, nofun⟩
  | inside => exact absurd (hholder.symm.trans hother.2) hne
  | read done => exact absurd (hholder.symm.trans hother.2.2) hne
  | recorded _ => exact absurd (hholder.symm.trans hother.2.1) hne
  | waking => exact ⟨hother.1, nofun, hother.2.2⟩
  | ended => exact ⟨hother.1, nofun, hother.2.2⟩

/-- The last one starts the worker. -/
theorem secure_wake {k : Program lockedSignature StoreError α}
    (hk : k.Secure (SharedSession.handle env)
      (submissionDiscipline sessionId runId results order p run) i Q .ended) :
    (Program.call (.server (.startWorker sessionId)) fun _ => k :
      Program lockedSignature StoreError α).Secure (SharedSession.handle env)
      (submissionDiscipline sessionId runId results order p run) i Q .waking := by
  intro s hs hknows _
  obtain ⟨hlast, hholder, hwakes⟩ := hknows
  refine ⟨fun _ => ⟨_, _, rfl⟩, fun r s' hr => ?_⟩
  cases hr
  generalize hw : (World.handle env (.startWorker sessionId) s.world).2 = w
  have hdone : (s.note i (.startWorker sessionId) w).done = s.done := by
    simp [SharedSession.note_done, ServerOp.commits]
  have hresumed : (s.note i (.startWorker sessionId) w).resumed = s.resumed := by
    simp [SharedSession.note_resumed, ServerOp.resumes]
  have hwoken : (s.note i (.startWorker sessionId) w).wakes = [(i, .startWorker sessionId)] := by
    simp [SharedSession.note_wakes, ServerOp.wakes, hwakes]
  have hmem : i ∈ s.done := List.mem_of_getLast? hlast.1
  refine ⟨.ended, ?_, ?_, fun h => h, ?_, hk⟩
  · subst hw
    refine ⟨hs.sound, ?_, hdone ▸ hs.nodup, hdone ▸ hs.bounded, hs.held, ?_, ?_⟩
    · obtain ⟨q, hview, hrest⟩ := hs.view
      refine ⟨q, hview, ?_⟩
      rw [SharedSession.callIds]
      exact hdone ▸ hrest
    · intro hlt
      exact absurd hlast.2 (by rw [hdone] at hlt; omega)
    · rw [hdone, hresumed]
      exact hs.full
  · exact ⟨hdone ▸ hmem, hholder, fun _ => hwoken⟩
  · intro j hj other hother
    -- nobody else is the last one
    have hne : ∀ j', s.done.getLast? = some j' → j' = i := fun j' h =>
      Option.some.inj (h.symm.trans hlast.1)
    cases other with
    | outside => exact ⟨hdone ▸ hother.1, hother.2⟩
    | inside => exact ⟨hdone ▸ hother.1, hother.2⟩
    | read done => exact ⟨hdone ▸ hother.1, hdone ▸ hother.2.1, hother.2.2⟩
    | recorded _ => exact absurd (hne j hother.1) hj
    | waking => exact absurd (hne j hother.1.1) hj
    | ended =>
      refine ⟨hdone ▸ hother.1, hother.2.1, fun hlastj => absurd (hne j ?_) hj⟩
      exact hdone ▸ hlastj.1

theorem resumes_submissionEvents (callId : String) (call : ToolCallProjection) (result : Json)
    (allReady : Bool) :
    (ServerOp.store (.append sessionId (submissionEvents runId callId call result allReady))).resumes =
      allReady := by
  cases allReady <;> rfl

section Recording

variable (hp : p.WellKeyed) (hawaits : p.Awaits runId run) (horder : order.Perm run.openCalls)
  {callId : String} (hi : order[i]? = some callId)

include hp hawaits horder hi

omit hp hawaits horder in
/-- One more result is recorded by the call that has the lock. -/
theorem Submitting.note_commit (h : Submitting sessionId runId results order p run s)
    (hnew : i ∉ s.done) (hholder : s.holder = some i) {op : ServerOp} {w : World}
    (hcommits : op.commits = true) (hnowake : op.wakes = false)
    (hresumes : op.resumes = decide (s.done.length + 1 = order.length)) (hsound : w.Sound)
    (hview : ∃ q, w.view sessionId = some q ∧ q.pendingPermissions = p.pendingPermissions ∧
      q.runs.get? runId = some (run.answered (resultsOf results (s.callIds order ++ [callId])))) :
    Submitting sessionId runId results order p run (s.note i op w) ∧
      (SubmissionStage.recorded op.resumes).knows sessionId order i (s.note i op w) ∧
      ∀ j ≠ i, ∀ stage : SubmissionStage, stage.knows sessionId order j s →
        stage.knows sessionId order j (s.note i op w) := by
  have hlt : i < order.length := (List.getElem?_eq_some_iff.mp hi).1
  have hsub := h.done_subperm hlt hnew
  have hroom : s.done.length < order.length := by
    have hle := hsub.length_le
    rw [List.length_append, List.length_range] at hle
    exact hle
  obtain ⟨hresumed, hwakes⟩ := h.waits hroom
  have hdone : (s.note i op w).done = s.done ++ [i] := by simp [SharedSession.note_done, hcommits]
  have hlength : (s.note i op w).done.length = s.done.length + 1 := by simp [hdone]
  have hlast : (s.note i op w).done.getLast? = some i := by simp [hdone]
  have hwakes' : (s.note i op w).wakes = [] := by simp [SharedSession.note_wakes, hnowake, hwakes]
  refine ⟨⟨hsound, ?_, ?_, ?_, h.held, ?_, ?_⟩, ⟨hlast, hholder, hwakes', ?_⟩, ?_⟩
  · have hcallIds : (s.note i op w).callIds order = s.callIds order ++ [callId] := by
      simp [SharedSession.callIds, hdone, hi]
    rw [hcallIds]
    exact hview
  · rw [hdone]
    exact h.nodup.append (List.nodup_singleton i) (by simpa using hnew)
  · intro j hj
    exact List.mem_range.mp (hsub.subset (hdone ▸ hj))
  · intro hmore
    rw [hlength] at hmore
    refine ⟨?_, hwakes'⟩
    simp [SharedSession.note_resumed, hresumes, hresumed, hmore.ne]
  · intro hfull
    rw [hlength] at hfull
    refine ⟨i, hlast, ?_⟩
    simp [SharedSession.note_resumed, hresumes, hresumed, hfull]
  · rw [hresumes, hlength]
  · intro j hj stage hstage
    have hne : (some i : Option Nat) ≠ some j := fun h => hj (Option.some.inj h).symm
    cases stage with
    | outside => exact ⟨by simp [hdone, hstage.1, hj], hstage.2⟩
    | inside => exact absurd (hholder.symm.trans hstage.2) hne
    | read _ => exact absurd (hholder.symm.trans hstage.2.2) hne
    | recorded _ => exact absurd (hholder.symm.trans hstage.2.1) hne
    | waking => exact absurd hstage.1.2 hroom.ne
    | ended =>
      refine ⟨by simp [hdone, hstage.1], hstage.2.1, fun hlastj => ?_⟩
      exact absurd (hlast.symm.trans hlastj.1) hne

/-- The result is recorded. -/
theorem secure_append {done : List Nat} {call : ToolCallProjection}
    (hcall : run.toolCalls.get? callId = some call) (hopen : call.result = none)
    {k : Except StoreError (List RecordedEvent) → Program lockedSignature StoreError α}
    (hk : ∀ records, (k (.ok records)).Secure (SharedSession.handle env)
      (submissionDiscipline sessionId runId results order p run) i Q
      (.recorded (decide (done.length + 1 = order.length)))) :
    (Program.call (.server (.store (.append sessionId (submissionEvents runId callId call
      (results callId) (decide (done.length + 1 = order.length)))))) k :
      Program lockedSignature StoreError α).Secure (SharedSession.handle env)
      (submissionDiscipline sessionId runId results order p run) i Q (.read done) := by
  intro s hs hknows _
  obtain ⟨rfl, hnew, hholder⟩ := hknows
  refine ⟨fun _ => ⟨_, _, rfl⟩, fun r s' hr => ?_⟩
  obtain ⟨hrun, -⟩ := SessionProjection.awaitedRun_eq_ok.mp hawaits.awaited
  have hmissing : callId ∉ s.callIds order := fun hmem =>
    hnew ((hs.mem_callIds (order_nodup hp hawaits horder) hi).mp hmem)
  -- the store accepts the events
  obtain ⟨q, hq, hpermissions, hqrun⟩ := hs.view
  obtain ⟨call', hcall', -, hanswered, -⟩ := hs.admit hp hawaits horder hq hi hnew
  cases hcall.symm.trans hcall'
  obtain ⟨q', happly, hruns, hpermissions'⟩ := SessionProjection.applyAll_submissionEvents hqrun
    hanswered hopen (results callId) (decide (s.done.length + 1 = order.length))
  obtain ⟨records, w', hstored, hsound, hview', -, -⟩ := storeAppend_run env hs.sound hq happly
  rw [onStore, Program.run_call, Program.run_ofExcept] at hstored
  obtain ⟨hreply, hworld⟩ := Prod.mk.inj hstored
  cases hr
  have hqrun' : q'.runs.get? runId =
      some (run.answered (resultsOf results (s.callIds order ++ [callId]))) := by
    rw [hruns, SortedMap.get?_insert_self, hp.answered_insert hrun hcall hopen hmissing]
  obtain ⟨hinv, hknows, hframes⟩ := hs.note_commit hi hnew hholder rfl rfl
    (resumes_submissionEvents callId call (results callId) _) hsound
    ⟨q', hview', hpermissions'.trans hpermissions, hqrun'⟩
  rw [resumes_submissionEvents] at hknows
  rw [hworld, hreply]
  exact ⟨.recorded _, hinv, hknows, fun h => h, hframes, hk records⟩

end Recording

/-- Publishing changes nothing. -/
theorem secure_publishAll (records : List RecordedEvent) :
    (lockless (publishAll records)).Secure (SharedSession.handle env)
      (submissionDiscipline sessionId runId results order p run) i
      (fun stage' x => stage' = stage ∧ x = .ok ()) stage := by
  induction records with
  | nil => exact ⟨rfl, rfl⟩
  | cons record records ih =>
    refine secure_quiet rfl rfl fun s _ => ⟨⟨id, fun _ => rfl, rfl, rfl⟩, ?_⟩
    change (lockless (releaseTerminalAdmission record.event >>= fun _ =>
      publishAll records)).Secure _ _ _ _ _
    unfold releaseTerminalAdmission
    cases terminalRun record.event with
    | none => exact ih
    | some runId => exact secure_quiet rfl rfl fun s _ => ⟨World.reads_tick _, ih⟩

end Rules

/-! ### A submission among others -/

theorem lockless_bind {ε α β : Type} (program : Program serverSignature ε α)
    (f : α → Program serverSignature ε β) :
    lockless (program >>= f) = lockless program >>= fun a => lockless (f a) := by
  induction program with
  | ret a => rfl
  | fail e => rfl
  | call op k ih => exact congrArg (Program.call _) (funext ih)

section Submission

/-- A server that is up admits the request. -/
theorem admitSubmission_secure (hup : ∀ n, env.answer n .isShutdown = false)
    (hkept : ∀ n projectId, env.answer n (.isDeleting projectId) = false)
    (stage : SubmissionStage) :
    (lockless (admitSubmission sessionId)).Secure (SharedSession.handle env)
      (submissionDiscipline sessionId runId results order p run) i
      (fun stage' x => stage' = stage ∧ x = .ok ()) stage := by
  refine secure_quiet rfl rfl fun s _ => ⟨World.reads_tick _, ?_⟩
  rw [show (World.handle env (.external .isShutdown) s.world).1 = false from hup _]
  refine secure_quiet rfl rfl fun s hs => ⟨World.reads_tick _, ?_⟩
  obtain ⟨q, hq, -⟩ := hs.view
  obtain ⟨session, hsession⟩ := hs.sound.getSession_view hq
  rw [show (World.handle env (.store (.getSession sessionId)) s.world).1 = .ok session from hsession]
  rcases session with ⟨_, _, _ | projectId, _, _, _, _, _, _, _, _⟩
  · exact ⟨rfl, rfl⟩
  · refine secure_quiet rfl rfl fun s _ => ⟨World.reads_tick _, ?_⟩
    rw [show (World.handle env (.external (.isDeleting projectId)) s.world).1 = false from
      hkept _ _]
    exact ⟨rfl, rfl⟩

/-- The last one starts the worker, the others are done. -/
theorem wakeWorker_secure (hup : ∀ n, env.answer n .isShutdown = false) (allReady : Bool) :
    (lockless (wakeWorker sessionId allReady)).Secure (SharedSession.handle env)
      (submissionDiscipline sessionId runId results order p run) i
      (fun stage x => stage = .ended ∧ x = .ok ()) (.after allReady) := by
  cases allReady with
  | false => exact ⟨rfl, rfl⟩
  | true =>
    refine secure_quiet rfl rfl fun s _ => ⟨World.reads_tick _, ?_⟩
    rw [show (World.handle env (.external .isShutdown) s.world).1 = false from hup _]
    exact secure_wake (k := .ret ()) ⟨rfl, rfl⟩

variable (hp : p.WellKeyed) (hawaits : p.Awaits runId run) (horder : order.Perm run.openCalls)
  {callId : String} (hi : order[i]? = some callId)

include hp hawaits horder hi

/-- Under the lock the result is recorded. -/
theorem recordToolResult_secure :
    (lockless (recordToolResult sessionId runId callId (results callId))).Secure
      (SharedSession.handle env) (submissionDiscipline sessionId runId results order p run) i
      (fun stage x => ∃ allReady, stage = .recorded allReady ∧ x = .ok allReady) .inside := by
  refine secure_read rfl rfl fun s hs hknows => ?_
  obtain ⟨q, hq, -⟩ := hs.view
  obtain ⟨w', hprojection, hreads⟩ := projection_run env hs.sound hq
  rw [onStore, Program.run_call, Program.run_ofExcept] at hprojection
  obtain ⟨hreply, hworld⟩ := Prod.mk.inj hprojection
  obtain ⟨call, hcall, hopen, -, hadmitted⟩ := hs.admit hp hawaits horder hq hi hknows.1
  rw [hworld, hreply]
  refine ⟨hreads, .read s.done, ⟨rfl, hknows⟩, ?_⟩
  -- the events were chosen when the session was read, and nobody has recorded anything since
  change (lockless ((.ofExcept (q.admitToolResult runId callId (results callId)) :
    ServerProgram _) >>= _)).Secure _ _ _ _ _
  rw [hadmitted]
  refine secure_append hp hawaits horder hi hcall hopen fun records => ?_
  change (lockless ((publishAll records >>= fun _ => Program.ret records) >>= fun _ =>
    Program.ret (decide (s.done.length + 1 = order.length)))).Secure _ _ _ _ _
  rw [Program.bind_assoc, lockless_bind]
  refine (secure_publishAll records).bind ?_ ?_
  · rintro stage _ ⟨rfl, -⟩
    exact ⟨_, rfl, rfl⟩
  · rintro stage e ⟨-, he⟩
    cases he

/-- A submission ends well. -/
theorem lockedSubmission_secure (hup : ∀ n, env.answer n .isShutdown = false)
    (hkept : ∀ n projectId, env.answer n (.isDeleting projectId) = false) :
    (lockedSubmission sessionId runId callId (results callId)).Secure (SharedSession.handle env)
      (submissionDiscipline sessionId runId results order p run) i
      (fun stage x => stage = .ended ∧ x = .ok ()) .outside := by
  refine (admitSubmission_secure hup hkept .outside).bind ?_ ?_
  swap
  · rintro stage e ⟨-, he⟩
    cases he
  rintro stage _ ⟨rfl, -⟩
  have hrecord : (lockless (recordToolResult sessionId runId callId (results callId))).attempt.Secure
      (SharedSession.handle env) (submissionDiscipline sessionId runId results order p run) i
      (fun stage x => ∃ allReady, stage = .recorded allReady ∧ x = .ok (.ok allReady)) .inside := by
    refine Program.Secure.attempt ((recordToolResult_secure hp hawaits horder hi).mono ?_)
    rintro stage _ ⟨allReady, rfl, rfl⟩
    exact ⟨allReady, rfl, rfl⟩
  refine secure_lock (List.getElem?_eq_some_iff.mp hi).1 (hrecord.bind ?_ ?_)
  · rintro stage _ ⟨allReady, rfl, hx⟩
    cases hx
    exact secure_unlock (wakeWorker_secure hup allReady)
  · rintro stage e ⟨allReady, -, he⟩
    cases he

end Submission

end Submissions

/-! ### Any order -/

section AnyOrder

variable {env : Surroundings} {w : World} {sessionId runId : String} {p : SessionProjection}
  {run : RunProjection} {results : String → Json} {order : List String}

/-- How the submissions end. -/
abbrev SubmissionEnds (_ : Nat) (stage : SubmissionStage) (x : Except StoreError Unit) : Prop :=
  stage = .ended ∧ x = .ok ()

theorem submissions_secured (hw : w.Sound) (hview : w.view sessionId = some p)
    (hawaits : p.Awaits runId run) (hopen : run.openCalls ≠ []) (horder : order.Perm run.openCalls)
    (hup : ∀ n, env.answer n .isShutdown = false)
    (hkept : ∀ n projectId, env.answer n (.isDeleting projectId) = false)
    (results : String → Json) :
    (submissions sessionId runId results order w).Secured (SharedSession.handle env)
      (submissionDiscipline sessionId runId results order p run) SubmissionEnds
      fun _ => .outside := by
  obtain ⟨hrun, -⟩ := SessionProjection.awaitedRun_eq_ok.mp hawaits.awaited
  have hsome : 0 < order.length := by
    rw [horder.length_eq]
    exact List.length_pos_iff.mpr hopen
  refine ⟨⟨hw, ⟨p, hview, rfl, ?_⟩, List.nodup_nil, ?_, ?_, fun _ => ⟨rfl, rfl⟩, ?_⟩, ?_⟩
  · exact hrun.trans (congrArg some (RunProjection.answered_nil run results).symm)
  · exact fun i hi => absurd hi List.not_mem_nil
  · exact fun i hi => by cases hi
  · exact fun hfull => absurd hfull hsome.ne
  · intro i program hprogram
    rw [submissions, List.getElem?_map] at hprogram
    obtain ⟨callId, hi, rfl⟩ := Option.map_eq_some_iff.mp hprogram
    refine ⟨⟨List.not_mem_nil, by simp [submissions]⟩, ?_⟩
    exact lockedSubmission_secure (Store.Sound.wellKeyed_view hw hview) hawaits horder hi hup hkept

/-- A submission that has returned has recorded its result and given up the lock. -/
theorem submissions_returned {m : Tasks lockedSignature StoreError Unit SharedSession}
    {stage : Nat → SubmissionStage}
    (hm : m.Secured (SharedSession.handle env)
      (submissionDiscipline sessionId runId results order p run) SubmissionEnds stage) {i : Nat}
    {program : Program lockedSignature StoreError Unit} (hi : m.programs[i]? = some program)
    (hended : program.outcome?.isSome) :
    SubmissionStage.ended.knows sessionId order i m.state := by
  obtain ⟨x, hx⟩ := Option.isSome_iff_exists.mp hended
  obtain ⟨hknows, hstage, -⟩ := hm.outcome hi hx
  rw [hstage] at hknows
  exact hknows

/-- Whoever holds the lock has not returned, and where nobody does nobody waits. -/
theorem submissions_free (m : Tasks lockedSignature StoreError Unit SharedSession)
    (stage : Nat → SubmissionStage) (hcount : m.programs.length = order.length)
    (hm : m.Secured (SharedSession.handle env)
      (submissionDiscipline sessionId runId results order p run) SubmissionEnds stage) (i : Nat)
    (hi : ¬ m.Ended i) :
    ∃ i, ¬ m.Ended i ∧ (submissionDiscipline sessionId runId results order p run).free i m.state := by
  rcases hholder : m.state.holder with _ | j
  · exact ⟨i, hi, .inl hholder⟩
  · refine ⟨j, fun hended => ?_, .inr hholder⟩
    have hj : j < m.programs.length := hcount ▸ hm.1.held j hholder
    have hprogram := List.getElem?_eq_getElem hj
    exact (submissions_returned hm hprogram ((Tasks.ended_iff_outcome hprogram).mp hended)).2.1
      hholder

/-- Two results, the second call first, with every operation in between. -/
def alternating : List Nat := List.flatten (List.replicate 20 [1, 0])

end AnyOrder

end Piqo
