import PiqoServer.Core.Session
import PiqoServer.Library.Outcome

/-!
# What an event can do

The step lemmas of the projection. Each says once, for every event, how one component of the
projection may change; invariants over whole logs are inductions over these.

Events are read back from storage through serde, so a log replays the reloaded events. Replaying
commutes with reloading (`apply_reload`): the projection kept in memory and the one obtained from
the log differ only by `reload`.

## Main definitions

* `SessionProjection.call?`: the tool call of a run
* `CallChange`, `PermissionChange`: the effect of one event on a tool call, a permission request
* `SessionProjection.reload`: the projection of the reloaded events

## Main results

* `apply_call`, `apply_permission`: every accepted event changes a call or a request as described
* `apply_state`: the state component evolves by `SessionState.apply`
* `apply_reload`: reloading commutes with applying an event
* `WellKeyed.apply`: runs, calls and permission requests stay filed under their own ids
-/

namespace Piqo

namespace SessionProjection

variable {p q : SessionProjection} {eventId : Nat} {e : SemanticEvent}

/-! ## Updates that succeed -/

theorem updateRun_eq_ok {runId : String} {f : RunProjection → Except ProjectionError RunProjection} :
    p.updateRun runId f = .ok q ↔ ∃ run run', p.runs.get? runId = some run ∧ f run = .ok run' ∧
      q = { p with runs := p.runs.insert runId run' } := by
  unfold updateRun
  cases p.runs.get? runId with
  | none => simp
  | some run => simp [Except.map_eq_ok]

theorem updateCall_eq_ok {run run' : RunProjection} {callId : String}
    {f : ToolCallProjection → Except ProjectionError ToolCallProjection} :
    run.updateCall callId f = .ok run' ↔ ∃ call call', run.toolCalls.get? callId = some call ∧
      f call = .ok call' ∧ run' = { run with toolCalls := run.toolCalls.insert callId call' } := by
  unfold RunProjection.updateCall
  cases run.toolCalls.get? callId with
  | none => simp
  | some call => simp [Except.map_eq_ok]

theorem updateInstance_eq_ok {agentId : String}
    {f : AgentProjection → Except ProjectionError AgentProjection} :
    p.updateInstance agentId f = .ok q ↔ ∃ inst inst', p.agentInstances.get? agentId = some inst ∧
      f inst = .ok inst' ∧
      q = { p with agentInstances := p.agentInstances.insert agentId inst' } := by
  unfold updateInstance
  cases p.agentInstances.get? agentId with
  | none => simp
  | some inst => simp [Except.map_eq_ok]

theorem setRunTerminal_eq_ok {runId : String} {status : RunStatus} {error : Option String} :
    p.setRunTerminal runId status error = .ok q ↔ ∃ run, p.runs.get? runId = some run ∧
      run.status.live = true ∧
      q = { p with runs := p.runs.insert runId { run with status, error } } := by
  simp only [setRunTerminal, updateRun_eq_ok, Except.ite_ok_eq_ok, Except.ok.injEq]
  constructor
  · rintro ⟨run, _, hrun, ⟨hlive, rfl⟩, rfl⟩
    exact ⟨run, hrun, hlive, rfl⟩
  · rintro ⟨run, hrun, hlive, rfl⟩
    exact ⟨run, _, hrun, ⟨hlive, rfl⟩, rfl⟩

theorem apply_eq_ok : p.apply eventId e = .ok q ↔
    ∃ state, p.state.apply eventId e = .ok state ∧
      { p with state }.applyEvent eventId e = .ok q := by
  rw [apply, Except.bind_eq_ok]

/-! ## The state component -/

theorem applyEvent_state (h : p.applyEvent eventId e = .ok q) : q.state = p.state := by
  cases e <;>
    simp only [applyEvent, updateRun_eq_ok, updateInstance_eq_ok, setRunTerminal_eq_ok,
      Except.map_eq_ok, Except.bind_eq_ok, Except.ite_error_eq_ok, Except.ok.injEq,
      setQueuePaused] at h
  case permissionResolved requestId decision _ _ _ _ =>
    split at h
    · cases h
    · split at h
      · cases h; rfl
      · rw [Except.ite_ok_eq_ok] at h
        cases h.2; rfl
  case contextFactRecorded fact => split at h <;> cases h <;> rfl
  all_goals grind

/-- The state component evolves by `SessionState.apply`. -/
theorem apply_state (h : p.apply eventId e = .ok q) :
    p.state.apply eventId e = .ok q.state := by
  obtain ⟨state, hs, hq⟩ := apply_eq_ok.mp h
  rw [applyEvent_state hq]
  exact hs

theorem apply_lastEventId (h : p.apply eventId e = .ok q) :
    q.state.lastEventId = some eventId :=
  SessionState.apply_lastEventId (apply_state h)

theorem applyEvent_withState (state : SessionState) (h : p.applyEvent eventId e = .ok q) :
    { p with state }.applyEvent eventId e = .ok { q with state } := by
  cases e <;>
    simp only [applyEvent, updateRun_eq_ok, updateInstance_eq_ok, setRunTerminal_eq_ok,
      Except.map_eq_ok, Except.bind_eq_ok, Except.ite_error_eq_ok, Except.ok.injEq,
      setQueuePaused] at h ⊢
  case permissionResolved requestId decision _ _ _ _ =>
    split at h
    · cases h
    · split at h
      · cases h; rfl
      · obtain ⟨hsame, hq⟩ := Except.ite_ok_eq_ok.mp h
        cases hq
        simp [hsame]
  case contextFactRecorded fact => split at h <;> cases h <;> simp_all
  all_goals grind

theorem applyPhase_withSession {s t : SessionState} (sessionId : String)
    (h : s.applyPhase e = .ok t) :
    { s with sessionId }.applyPhase e = .ok { t with sessionId } := by
  cases e <;>
    simp only [SessionState.applyPhase, SessionState.interrupt, SessionState.transition,
      Except.ite_error_eq_ok, Except.ite_ok_eq_ok, Except.ok.injEq] at h ⊢ <;>
    grind

/-- A session's projection under another session id. -/
def rename (p : SessionProjection) (sessionId : String) : SessionProjection :=
  { p with state := { p.state with sessionId } }

/-- Events do not mention the session they belong to. -/
theorem apply_rename (sessionId : String) (h : p.apply eventId e = .ok q) :
    (p.rename sessionId).apply eventId e = .ok (q.rename sessionId) := by
  obtain ⟨state, hs, hq⟩ := apply_eq_ok.mp h
  have hstate : q.state = state := applyEvent_state hq
  refine apply_eq_ok.mpr ⟨{ state with sessionId }, ?_, ?_⟩
  · obtain ⟨s, hphase, rfl⟩ := Except.map_eq_ok.mp hs
    exact Except.map_eq_ok.mpr ⟨_, applyPhase_withSession sessionId hphase, rfl⟩
  · subst hstate
    have hcopy := applyEvent_withState { q.state with sessionId } hq
    exact hcopy

/-! ## Runs -/

/-- The effect of an event on the run `runId`: its entry before and after. -/
inductive RunChange (e : SemanticEvent) (runId : String) :
    Option RunProjection → RunProjection → Prop
  | queued {retryOf provider model request}
      (he : e = .runQueued runId retryOf provider model request) :
    RunChange e runId none {
      runId, retryOf, provider, model, request
      status := .queued, attemptId := none, attempts := 0, error := none, usage := none
      queuePriority := if retryOf.isSome then -1 else 0
      toolCalls := ∅ }
  | started {attemptId attempt} (run : RunProjection)
      (he : e = .runStarted runId attemptId attempt)
      (hstatus : run.status = .queued ∨ run.status = .requiresAction) :
    RunChange e runId (some run)
      { run with status := .running, attemptId := some attemptId, attempts := attempt }
  | attempted {attemptId attempt} (run : RunProjection)
      (he : e = .runAttemptStarted runId attemptId attempt) (hstatus : run.status = .running) :
    RunChange e runId (some run) { run with attemptId := some attemptId, attempts := attempt }
  | attemptFailed {attemptId error retryable} (run : RunProjection)
      (he : e = .runAttemptFailed runId attemptId error retryable) :
    RunChange e runId (some run) { run with error := some error }
  | completed {usage} (run : RunProjection) (he : e = .runCompleted runId usage)
      (hlive : run.status.live = true) :
    RunChange e runId (some run) { run with status := .completed, error := none, usage }
  | failed {error} (run : RunProjection) (he : e = .runFailed runId error)
      (hlive : run.status.live = true) :
    RunChange e runId (some run) { run with status := .failed, error := some error }
  | cancelled {reason} (run : RunProjection) (he : e = .runCancelled runId reason)
      (hlive : run.status.live = true) :
    RunChange e runId (some run) { run with status := .cancelled, error := none }
  | interrupted {reason} (run : RunProjection) (he : e = .runInterrupted runId reason)
      (hlive : run.status.live = true) :
    RunChange e runId (some run) { run with status := .interrupted, error := some reason }
  | paused {callIds} (run : RunProjection) (he : e = .runRequiresAction runId callIds)
      (hstatus : run.status = .running) :
    RunChange e runId (some run) { run with status := .requiresAction }
  | emitted {assistantMessageId callId agentId toolName arguments rawArguments native}
      (run : RunProjection)
      (he : e = .toolCallEmitted runId assistantMessageId callId agentId toolName arguments
        rawArguments native) (hnew : run.toolCalls.get? callId = none) :
    RunChange e runId (some run) { run with
      toolCalls := run.toolCalls.insert callId {
        callId, assistantMessageId, agentId, toolName, arguments, rawArguments, native
        executionId := none, result := none } }
  | claimed {callId executionId} (run : RunProjection) (call : ToolCallProjection)
      (he : e = .toolExecutionStarted runId callId executionId)
      (hcall : run.toolCalls.get? callId = some call) (hnative : call.native = true)
      (hfree : call.executionId = none) :
    RunChange e runId (some run) { run with
      toolCalls := run.toolCalls.insert callId { call with executionId := some executionId } }
  | answered {callId agentId toolName result} (run : RunProjection) (call : ToolCallProjection)
      (he : e = .toolResult runId callId agentId toolName result)
      (hcall : run.toolCalls.get? callId = some call) (hopen : call.result = none) :
    RunChange e runId (some run) { run with
      toolCalls := run.toolCalls.insert callId { call with result := some result } }

/-- An update that rewrites one run as `RunChange` says. -/
def RunsChange (e : SemanticEvent) (before after : SortedMap String RunProjection) : Prop :=
  after = before ∨ ∃ runId run', after = before.insert runId run' ∧
    RunChange e runId (before.get? runId) run'

theorem RunsChange.insert {before after : SortedMap String RunProjection} {runId : String}
    {o : Option RunProjection} {run' : RunProjection} (hget : before.get? runId = o)
    (h : RunChange e runId o run') (hafter : after = before.insert runId run') :
    RunsChange e before after :=
  .inr ⟨runId, run', hafter, hget ▸ h⟩

/-- Every accepted event changes the runs as `RunChange` says. -/
theorem apply_runs (h : p.apply eventId e = .ok q) : RunsChange e p.runs q.runs := by
  obtain ⟨state, -, hq⟩ := apply_eq_ok.mp h
  cases e <;>
    simp only [applyEvent, updateRun_eq_ok, updateInstance_eq_ok, setRunTerminal_eq_ok,
      updateCall_eq_ok, Except.map_eq_ok, Except.bind_eq_ok, Except.ite_error_eq_ok,
      Except.ite_ok_eq_ok, Except.ok.injEq, setQueuePaused] at hq
  case runQueued runId retryOf provider model request =>
    obtain ⟨hnew, rfl⟩ := hq
    exact .insert (by simpa [SortedMap.contains_eq_false_iff] using hnew) (.queued rfl) rfl
  case runStarted runId attemptId attempt =>
    obtain ⟨_, ⟨run, _, hrun, ⟨hstatus, rfl⟩, rfl⟩, rfl⟩ := hq
    exact .insert hrun (.started run rfl hstatus) rfl
  case runAttemptStarted runId attemptId attempt =>
    obtain ⟨run, _, hrun, ⟨hstatus, rfl⟩, rfl⟩ := hq
    exact .insert hrun (.attempted run rfl hstatus) rfl
  case runAttemptFailed runId attemptId error retryable =>
    obtain ⟨run, _, hrun, rfl, rfl⟩ := hq
    exact .insert hrun (.attemptFailed run rfl) rfl
  case runCompleted runId usage =>
    obtain ⟨_, ⟨run, hrun, hlive, rfl⟩, run₂, _, hrun₂, rfl, rfl⟩ := hq
    obtain rfl : { run with status := .completed, error := none } = run₂ := by simpa using hrun₂
    exact .insert hrun (.completed run rfl hlive) (SortedMap.insert_insert ..)
  case runFailed runId error =>
    obtain ⟨_, ⟨run, hrun, hlive, rfl⟩, rfl⟩ := hq
    exact .insert hrun (.failed run rfl hlive) rfl
  case runCancelled runId reason =>
    obtain ⟨_, ⟨run, hrun, hlive, rfl⟩, rfl⟩ := hq
    exact .insert hrun (.cancelled run rfl hlive) rfl
  case runInterrupted runId reason =>
    obtain ⟨_, ⟨run, hrun, hlive, rfl⟩, rfl⟩ := hq
    exact .insert hrun (.interrupted run rfl hlive) rfl
  case runRequiresAction runId callIds =>
    obtain ⟨_, ⟨run, _, hrun, ⟨hstatus, rfl⟩, rfl⟩, rfl⟩ := hq
    exact .insert hrun (.paused run rfl hstatus) rfl
  case toolCallEmitted runId msg callId agentId toolName arguments raw native =>
    obtain ⟨run, _, hrun, ⟨hnew, rfl⟩, rfl⟩ := hq
    refine .insert hrun (.emitted run rfl ?_) rfl
    simpa [SortedMap.contains_eq_false_iff] using hnew
  case toolExecutionStarted runId callId executionId =>
    obtain ⟨run, _, hrun, ⟨call, call', hcall, ⟨hnative, hclaim⟩, rfl⟩, rfl⟩ := hq
    split at hclaim
    · next hfree =>
      cases hclaim
      exact .insert hrun (.claimed run call rfl hcall (by simpa using hnative) hfree) rfl
    · obtain ⟨-, hsame⟩ := Except.ite_ok_eq_ok.mp hclaim
      cases hsame
      exact .inl (by simp only [SortedMap.insert_eq_self hcall, SortedMap.insert_eq_self hrun])
  case toolResult runId callId agentId toolName result =>
    obtain ⟨run, _, hrun, ⟨call, call', hcall, hanswer, rfl⟩, rfl⟩ := hq
    split at hanswer
    · next hopen =>
      cases hanswer
      exact .insert hrun (.answered run call rfl hcall hopen) rfl
    · obtain ⟨-, hsame⟩ := Except.ite_ok_eq_ok.mp hanswer
      cases hsame
      exact .inl (by simp only [SortedMap.insert_eq_self hcall, SortedMap.insert_eq_self hrun])
  case permissionResolved requestId decision _ _ _ _ =>
    split at hq
    · cases hq
    · split at hq
      · cases hq; exact .inl rfl
      · cases (Except.ite_ok_eq_ok.mp hq).2
        exact .inl rfl
  case contextFactRecorded fact => split at hq <;> cases hq <;> exact .inl rfl
  all_goals exact .inl (by grind)

/-- A run keeps its request. -/
theorem apply_request (h : p.apply eventId e = .ok q) {runId : String} {run : RunProjection}
    (hrun : p.runs.get? runId = some run) :
    ∃ run', q.runs.get? runId = some run' ∧ run'.request = run.request := by
  rcases apply_runs h with hruns | ⟨id, run', hruns, hchange⟩
  · exact ⟨run, hruns ▸ hrun, rfl⟩
  · by_cases hid : runId = id
    · subst hid
      refine ⟨run', by rw [hruns, SortedMap.get?_insert_self], ?_⟩
      rw [hrun] at hchange
      cases hchange <;> rfl
    · exact ⟨run, by rw [hruns, SortedMap.get?_insert_of_ne _ _ hid, hrun], rfl⟩

/-! ## Tool calls -/

/-- The tool call `callId` of the run `runId`. -/
def call? (p : SessionProjection) (runId callId : String) : Option ToolCallProjection :=
  (p.runs.get? runId).bind (·.toolCalls.get? callId)

/-- The effect of an event on the call `callId` of the run `runId`. -/
inductive CallChange (e : SemanticEvent) (runId callId : String) :
    Option ToolCallProjection → Option ToolCallProjection → Prop
  | same (call) : CallChange e runId callId call call
  | emitted {assistantMessageId agentId toolName arguments rawArguments native}
      (he : e = .toolCallEmitted runId assistantMessageId callId agentId toolName arguments
        rawArguments native) :
    CallChange e runId callId none (some {
      callId, assistantMessageId, agentId, toolName, arguments, rawArguments, native
      executionId := none, result := none })
  | claimed {executionId} (call : ToolCallProjection)
      (he : e = .toolExecutionStarted runId callId executionId) (hnative : call.native = true)
      (hfree : call.executionId = none) :
    CallChange e runId callId (some call) (some { call with executionId := some executionId })
  | answered {agentId toolName result} (call : ToolCallProjection)
      (he : e = .toolResult runId callId agentId toolName result) (hopen : call.result = none) :
    CallChange e runId callId (some call) (some { call with result := some result })

/-- Every accepted event changes a tool call as `CallChange` says. -/
theorem apply_call (h : p.apply eventId e = .ok q) (r c : String) :
    CallChange e r c (p.call? r c) (q.call? r c) := by
  rcases apply_runs h with hruns | ⟨runId, run', hruns, hchange⟩
  · rw [call?, call?, hruns]
    exact .same _
  · by_cases hr : r = runId
    swap
    · rw [call?, call?, hruns, SortedMap.get?_insert_of_ne _ _ hr]
      exact .same _
    subst hr
    rw [call?, call?, hruns, SortedMap.get?_insert_self, Option.bind_some]
    generalize p.runs.get? r = before at hchange ⊢
    -- only an emission, a claim or an answer rewrites a call, and only its own
    cases hchange
    case emitted callId _ _ _ _ _ run he hnew =>
      by_cases hc : c = callId
      · subst hc
        simpa [hnew] using CallChange.emitted he
      · simpa [SortedMap.get?_insert_of_ne _ _ hc] using .same _
    case claimed callId _ run call he hcall hnative hfree =>
      by_cases hc : c = callId
      · subst hc
        simpa [hcall] using CallChange.claimed call he hnative hfree
      · simpa [SortedMap.get?_insert_of_ne _ _ hc] using .same _
    case answered callId _ _ _ run call he hcall hopen =>
      by_cases hc : c = callId
      · subst hc
        simpa [hcall] using CallChange.answered call he hopen
      · simpa [SortedMap.get?_insert_of_ne _ _ hc] using .same _
    all_goals exact .same _

/-- A result is accepted where the call has none, or the same one. -/
theorem apply_toolResult_iff {runId callId agentId toolName : String} {result : Json} :
    p.apply eventId (.toolResult runId callId agentId toolName result) = .ok q ↔
      ∃ run call, p.runs.get? runId = some run ∧ run.toolCalls.get? callId = some call ∧
        (call.result = none ∨ call.result = some result) ∧
        q = { p with
          state := { p.state with lastEventId := some eventId }
          runs := p.runs.insert runId { run with
            toolCalls := run.toolCalls.insert callId { call with result := some result } } } := by
  have hstate : p.state.apply eventId (.toolResult runId callId agentId toolName result) =
      .ok { p.state with lastEventId := some eventId } := rfl
  rw [apply_eq_ok]
  constructor
  · rintro ⟨state, hs, h⟩
    cases hstate.symm.trans hs
    obtain ⟨run, run', hrun, hupdate, rfl⟩ := updateRun_eq_ok.mp h
    obtain ⟨call, call', hcall, hresult, rfl⟩ := updateCall_eq_ok.mp hupdate
    refine ⟨run, call, hrun, hcall, ?_⟩
    split at hresult
    · next hnone =>
      cases hresult
      exact ⟨.inl hnone, rfl⟩
    · next existing hsome =>
      obtain ⟨rfl, hsame⟩ := Except.ite_ok_eq_ok.mp hresult
      obtain rfl := Except.ok.inj hsame
      refine ⟨.inr hsome, ?_⟩
      have hsame : { call with result := some existing } = call := by
        cases call
        cases hsome
        rfl
      rw [hsame]
  · rintro ⟨run, call, hrun, hcall, hopen, rfl⟩
    refine ⟨_, hstate, updateRun_eq_ok.mpr ⟨run, _, hrun, ?_, rfl⟩⟩
    refine updateCall_eq_ok.mpr ⟨call, _, hcall, ?_, rfl⟩
    rcases hopen with hopen | hopen
    · rw [hopen]
    · rw [hopen]
      dsimp only
      rw [if_pos rfl]
      cases call
      cases hopen
      rfl

theorem apply_toolCallEmitted {runId assistantMessageId callId agentId toolName : String}
    {arguments : Json} {rawArguments : String} {native : Bool}
    (h : p.apply eventId (.toolCallEmitted runId assistantMessageId callId agentId toolName arguments
      rawArguments native) = .ok q) :
    p.call? runId callId = none ∧ ∃ call, q.call? runId callId = some call ∧ call.result = none := by
  obtain ⟨state, -, h⟩ := apply_eq_ok.mp h
  obtain ⟨run, run', hrun, hcall, rfl⟩ := updateRun_eq_ok.mp h
  obtain ⟨hnew, hcall⟩ := Except.ite_error_eq_ok.mp hcall
  cases hcall
  rw [call?, call?, SortedMap.get?_insert_self, show p.runs.get? runId = some run from hrun]
  refine ⟨?_, _, SortedMap.get?_insert_self .., rfl⟩
  simpa [SortedMap.contains] using hnew

/-! ## Permission requests -/

/-- The effect of an event on the permission request `requestId`. -/
inductive PermissionChange (e : SemanticEvent) (requestId : String) :
    Option PermissionProjection → Option PermissionProjection → Prop
  | same (request) : PermissionChange e requestId request request
  | requested {runId callId agentId toolName arguments}
      (he : e = .permissionRequested requestId runId callId agentId toolName arguments) :
    PermissionChange e requestId none
      (some { requestId, runId, callId, agentId, toolName, arguments, decision := none })
  | resolved {decision source scope ruleId reason} (request : PermissionProjection)
      (he : e = .permissionResolved requestId decision source scope ruleId reason)
      (hopen : request.decision = none) :
    PermissionChange e requestId (some request) (some { request with decision := some decision })

/-- Every accepted event changes a permission request as `PermissionChange` says. -/
theorem apply_permission (h : p.apply eventId e = .ok q) (requestId : String) :
    PermissionChange e requestId (p.pendingPermissions.get? requestId)
      (q.pendingPermissions.get? requestId) := by
  obtain ⟨state, -, hq⟩ := apply_eq_ok.mp h
  have hsame : q.pendingPermissions = p.pendingPermissions →
      PermissionChange e requestId (p.pendingPermissions.get? requestId)
        (q.pendingPermissions.get? requestId) := fun heq => heq ▸ .same _
  cases e <;>
    simp only [applyEvent, updateRun_eq_ok, updateInstance_eq_ok, setRunTerminal_eq_ok,
      Except.map_eq_ok, Except.bind_eq_ok, Except.ite_error_eq_ok, Except.ok.injEq,
      setQueuePaused] at hq
  case permissionRequested id runId callId agentId toolName arguments =>
    obtain ⟨hnew, rfl⟩ := hq
    by_cases hid : requestId = id
    · subst hid
      have hnone : p.pendingPermissions.get? requestId = none := by
        simpa [SortedMap.contains_eq_false_iff] using hnew
      simpa [hnone] using PermissionChange.requested rfl
    · simpa [SortedMap.get?_insert_of_ne _ _ hid] using .same _
  case permissionResolved id decision _ _ _ _ =>
    split at hq
    · cases hq
    · next pending hpending =>
      split at hq
      · next hopen =>
        cases hq
        by_cases hid : requestId = id
        · subst hid
          simpa [show p.pendingPermissions.get? requestId = some pending from hpending] using
            PermissionChange.resolved pending rfl hopen
        · simpa [SortedMap.get?_insert_of_ne _ _ hid] using .same _
      · cases (Except.ite_ok_eq_ok.mp hq).2
        exact .same _
  case contextFactRecorded fact => split at hq <;> cases hq <;> exact .same _
  all_goals exact hsame (by grind)

/-! ## Keys -/

/-- Runs, tool calls and permission requests are filed under their own ids. -/
structure WellKeyed (p : SessionProjection) : Prop where
  run : ∀ {runId run}, p.runs.get? runId = some run → run.runId = runId
  call : ∀ {runId callId call}, p.call? runId callId = some call → call.callId = callId
  permission : ∀ {requestId request},
    p.pendingPermissions.get? requestId = some request → request.requestId = requestId

theorem WellKeyed.new (sessionId : String) : (new sessionId).WellKeyed where
  run h := by simp [SessionProjection.new] at h
  call h := by simp [SessionProjection.new, call?] at h
  permission h := by simp [SessionProjection.new] at h

theorem WellKeyed.apply (hp : p.WellKeyed) (h : p.apply eventId e = .ok q) : q.WellKeyed where
  run := by
    intro r run hrun
    rcases apply_runs h with hruns | ⟨runId, run', hruns, hchange⟩
    · exact hp.run (hruns ▸ hrun)
    · rw [hruns, SortedMap.get?_insert] at hrun
      split at hrun
      · next hr =>
        subst hr
        obtain rfl := Option.some.inj hrun
        have hbefore : ∀ run, p.runs.get? r = some run → run.runId = r := fun _ h => hp.run h
        generalize p.runs.get? r = before at hchange hbefore
        cases hchange
        case queued => rfl
        all_goals
          have hkey := hbefore _ rfl
          exact hkey
      · exact hp.run hrun
  call := by
    intro r c call hcall
    have hbefore : ∀ call, p.call? r c = some call → call.callId = c := fun _ h => hp.call h
    have hchange := apply_call h r c
    rw [hcall] at hchange
    generalize p.call? r c = before at hchange hbefore
    cases hchange
    case emitted => rfl
    all_goals
      have hkey := hbefore _ rfl
      exact hkey
  permission := by
    intro id request hrequest
    have hbefore : ∀ request, p.pendingPermissions.get? id = some request →
        request.requestId = id := fun _ h => hp.permission h
    have hchange := apply_permission h id
    rw [hrequest] at hchange
    generalize p.pendingPermissions.get? id = before at hchange hbefore
    cases hchange
    case requested => rfl
    all_goals
      have hkey := hbefore _ rfl
      exact hkey

/-! ## Reloading

The projection kept in memory was fed the events as they were appended; a replay is fed the
events as they are read back. The two stay related by `reload`. -/

end SessionProjection

/-- A run as the reloaded events leave it. -/
def RunProjection.reload (run : RunProjection) : RunProjection :=
  { run with usage := reloadValue run.usage }

/-- An agent instance as the reloaded events leave it. -/
def AgentProjection.reload (inst : AgentProjection) : AgentProjection :=
  { inst with result := inst.result.map AgentResult.reload }

namespace SessionProjection

variable {p q : SessionProjection} {eventId : Nat} {e : SemanticEvent}

/-- The projection as the reloaded events leave it. -/
def reload (p : SessionProjection) : SessionProjection :=
  { p with
    agentInstances := p.agentInstances.mapValues AgentProjection.reload
    runs := p.runs.mapValues RunProjection.reload }

@[simp] theorem reload_state (p : SessionProjection) : p.reload.state = p.state := rfl

@[simp] theorem reload_new (sessionId : String) : (new sessionId).reload = new sessionId := rfl

theorem updateRun_reload {runId : String}
    {f g : RunProjection → Except ProjectionError RunProjection}
    (hfg : ∀ run run', f run = .ok run' → g run.reload = .ok run'.reload)
    (h : p.updateRun runId f = .ok q) : p.reload.updateRun runId g = .ok q.reload := by
  obtain ⟨run, run', hrun, hf, rfl⟩ := updateRun_eq_ok.mp h
  refine updateRun_eq_ok.mpr ⟨run.reload, run'.reload, ?_, hfg _ _ hf, ?_⟩
  · simp [reload, SortedMap.get?_mapValues, hrun]
  · simp [reload, SortedMap.mapValues_insert]

theorem updateCall_reload {run run' : RunProjection} {callId : String}
    {f : ToolCallProjection → Except ProjectionError ToolCallProjection}
    (h : run.updateCall callId f = .ok run') :
    run.reload.updateCall callId f = .ok run'.reload := by
  obtain ⟨call, call', hcall, hf, rfl⟩ := updateCall_eq_ok.mp h
  exact updateCall_eq_ok.mpr ⟨call, call', hcall, hf, rfl⟩

theorem updateInstance_reload {agentId : String}
    {f g : AgentProjection → Except ProjectionError AgentProjection}
    (hfg : ∀ inst inst', f inst = .ok inst' → g inst.reload = .ok inst'.reload)
    (h : p.updateInstance agentId f = .ok q) :
    p.reload.updateInstance agentId g = .ok q.reload := by
  obtain ⟨inst, inst', hinst, hf, rfl⟩ := updateInstance_eq_ok.mp h
  refine updateInstance_eq_ok.mpr ⟨inst.reload, inst'.reload, ?_, hfg _ _ hf, ?_⟩
  · simp [reload, SortedMap.get?_mapValues, hinst]
  · simp [reload, SortedMap.mapValues_insert]

theorem setRunTerminal_reload {runId : String} {status : RunStatus} {error : Option String}
    (h : p.setRunTerminal runId status error = .ok q) :
    p.reload.setRunTerminal runId status error = .ok q.reload := by
  refine updateRun_reload (fun run run' hrun => ?_) h
  obtain ⟨hlive, hrun⟩ := Except.ite_ok_eq_ok.mp hrun
  cases hrun
  exact Except.ite_ok_eq_ok.mpr ⟨hlive, rfl⟩

theorem setQueuePaused_reload (paused : Bool) (p : SessionProjection) :
    (p.setQueuePaused paused).reload = p.reload.setQueuePaused paused := rfl

theorem contains_mapValues_reload (m : SortedMap String RunProjection) (runId : String) :
    (m.mapValues RunProjection.reload).contains runId = m.contains runId := by
  simp [SortedMap.contains, SortedMap.get?_mapValues]

theorem applyEvent_reload (h : p.applyEvent eventId e = .ok q) :
    p.reload.applyEvent eventId e.reload = .ok q.reload := by
  cases e <;> simp only [applyEvent, SemanticEvent.reload] at h ⊢
  case messageStarted =>
    obtain ⟨hnew, hq⟩ := Except.ite_error_eq_ok.mp h
    cases hq
    exact Except.ite_error_eq_ok.mpr ⟨hnew, rfl⟩
  case messageContentAppended | messageCompleted | messageInterrupted =>
    obtain ⟨messages, hm, rfl⟩ := Except.map_eq_ok.mp h
    exact Except.map_eq_ok.mpr ⟨messages, hm, rfl⟩
  case agentSpawned =>
    obtain ⟨hnew, hq⟩ := Except.ite_error_eq_ok.mp h
    cases hq
    refine Except.ite_error_eq_ok.mpr ⟨hnew, ?_⟩
    simp [reload, SortedMap.mapValues_insert, AgentProjection.reload]
  case agentFinished agentId result =>
    refine updateInstance_reload (fun inst inst' hinst => ?_) h
    rcases inst with ⟨_, _, _, _, _, _ | existing⟩ <;> rcases result with _ | result
    · cases hinst; rfl
    · cases hinst; rfl
    · cases hinst; rfl
    · simp only [Except.ite_ok_eq_ok, Except.ok.injEq] at hinst
      obtain ⟨rfl, rfl⟩ := hinst
      simp [AgentProjection.reload]
  case agentContextCaptured agentId references =>
    refine updateInstance_reload (fun inst inst' hinst => ?_) h
    obtain ⟨hctx, hinst⟩ := Except.ite_error_eq_ok.mp hinst
    cases hinst
    exact Except.ite_error_eq_ok.mpr ⟨hctx, rfl⟩
  case agentResultDelivered agentId parentRunId parentCallId result =>
    refine updateInstance_reload (fun inst inst' hinst => ?_) h
    rcases inst with ⟨_, _, _, _, _, _ | existing⟩
    · cases hinst; rfl
    · simp only [Except.ite_ok_eq_ok, Except.ok.injEq] at hinst
      obtain ⟨rfl, rfl⟩ := hinst
      simp [AgentProjection.reload]
  case permissionRequested =>
    obtain ⟨hnew, hq⟩ := Except.ite_error_eq_ok.mp h
    cases hq
    exact Except.ite_error_eq_ok.mpr ⟨hnew, rfl⟩
  case permissionResolved requestId decision source scope ruleId reason =>
    have hget : p.reload.pendingPermissions.get? requestId =
      p.pendingPermissions.get? requestId := rfl
    rw [hget]
    cases hpending : p.pendingPermissions.get? requestId with
    | none => simp [hpending] at h
    | some pending =>
      cases hdecision : pending.decision with
      | none =>
        simp only [hpending, hdecision, Except.ok.injEq] at h ⊢
        subst h
        rfl
      | some existing =>
        simp only [hpending, hdecision, Except.ite_ok_eq_ok, Except.ok.injEq] at h ⊢
        exact ⟨h.1, congrArg reload h.2⟩
  case runQueued =>
    obtain ⟨hnew, hq⟩ := Except.ite_error_eq_ok.mp h
    cases hq
    refine Except.ite_error_eq_ok.mpr ⟨?_, ?_⟩
    · rwa [reload, contains_mapValues_reload]
    · simp [reload, SortedMap.mapValues_insert, RunProjection.reload, reloadValue]
  case runStarted =>
    obtain ⟨p', hp', rfl⟩ := Except.map_eq_ok.mp h
    refine Except.map_eq_ok.mpr ⟨p'.reload, updateRun_reload (fun run run' hrun => ?_) hp', rfl⟩
    obtain ⟨hstatus, hrun⟩ := Except.ite_ok_eq_ok.mp hrun
    cases hrun
    exact Except.ite_ok_eq_ok.mpr ⟨hstatus, rfl⟩
  case runCompleted runId usage =>
    obtain ⟨p', hp', hq⟩ := Except.bind_eq_ok.mp h
    refine Except.bind_eq_ok.mpr ⟨p'.reload, setRunTerminal_reload hp', ?_⟩
    refine updateRun_reload (fun run run' hrun => ?_) hq
    cases hrun
    rfl
  case runAttemptStarted =>
    refine updateRun_reload (fun run run' hrun => ?_) h
    obtain ⟨hstatus, hrun⟩ := Except.ite_ok_eq_ok.mp hrun
    cases hrun
    exact Except.ite_ok_eq_ok.mpr ⟨hstatus, rfl⟩
  case runFailed | runCancelled | runInterrupted =>
    obtain ⟨p', hp', rfl⟩ := Except.map_eq_ok.mp h
    exact Except.map_eq_ok.mpr ⟨p'.reload, setRunTerminal_reload hp', rfl⟩
  case runRequiresAction =>
    obtain ⟨p', hp', rfl⟩ := Except.map_eq_ok.mp h
    refine Except.map_eq_ok.mpr ⟨p'.reload, updateRun_reload (fun run run' hrun => ?_) hp', rfl⟩
    obtain ⟨hstatus, hrun⟩ := Except.ite_ok_eq_ok.mp hrun
    cases hrun
    exact Except.ite_ok_eq_ok.mpr ⟨hstatus, rfl⟩
  case toolCallEmitted =>
    refine updateRun_reload (fun run run' hrun => ?_) h
    obtain ⟨hnew, hrun⟩ := Except.ite_error_eq_ok.mp hrun
    cases hrun
    exact Except.ite_error_eq_ok.mpr ⟨hnew, rfl⟩
  case toolExecutionStarted | toolResult =>
    exact updateRun_reload (fun _ _ hrun => updateCall_reload hrun) h
  case runAttemptFailed =>
    refine updateRun_reload (fun run run' hrun => ?_) h
    cases hrun
    rfl
  case contextFactRecorded =>
    change (if p.context.durableFacts.any _ = true then _ else _) = _
    split at h <;> cases h <;> simp_all [reload]
  all_goals cases h; rfl

theorem stateApply_reload (s : SessionState) :
    s.apply eventId e.reload = s.apply eventId e := by
  cases e <;> rfl

/-- Reloading commutes with applying an event. -/
theorem apply_reload (h : p.apply eventId e = .ok q) :
    p.reload.apply eventId e.reload = .ok q.reload := by
  obtain ⟨state, hs, hq⟩ := apply_eq_ok.mp h
  refine apply_eq_ok.mpr ⟨state, ?_, applyEvent_reload hq⟩
  rw [stateApply_reload]
  exact hs

/-- A projection fed only events that survive storage is its own reload. -/
theorem apply_reload_eq (hp : p.reload = p) (he : e.reload = e) (h : p.apply eventId e = .ok q) :
    q.reload = q := by
  have hreload := apply_reload h
  rw [hp, he, h] at hreload
  exact (Except.ok.inj hreload).symm

end SessionProjection

end Piqo
