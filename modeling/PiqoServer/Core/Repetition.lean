import PiqoServer.Core.History

/-!
# Decisions applied again

A result, an answer to a permission request, the claim of a call, a captured context, a delivered
result of an agent and a durable fact are decisions: once the projection has recorded one, it
records nothing new when the same decision comes again. Since no event takes a decision back, this
holds at the end of every log in which the decision occurs.

## Main definitions

* `SemanticEvent.decides`: the events that are decisions
* `SessionProjection.Records`: what a projection shows of a decision it has recorded

## Main results

* `apply_records`: an accepted decision is recorded
* `Records.apply`: what is recorded stays recorded
* `Records.again`: a recorded decision is accepted again and moves only the position
* `decisions_repeat`: every decision of an accepted log can be applied again at its end
-/

namespace Piqo

/-- An event that records a decision. A context without references decides nothing. -/
def SemanticEvent.decides : SemanticEvent → Bool
  | .toolResult .. | .permissionResolved .. | .toolExecutionStarted ..
  | .agentResultDelivered .. | .contextFactRecorded .. => true
  | .agentContextCaptured _ references => !references.isEmpty
  | _ => false

namespace SessionProjection

variable {p q : SessionProjection} {eventId : Nat} {e : SemanticEvent}

/-- What shows that the projection has recorded a decision. -/
def Records (p : SessionProjection) : SemanticEvent → Prop
  | .toolResult runId callId _ _ result =>
    ∃ call, p.call? runId callId = some call ∧ call.result = some result
  | .toolExecutionStarted runId callId executionId =>
    ∃ call, p.call? runId callId = some call ∧ call.executionId = some executionId ∧
      call.native = true
  | .permissionResolved requestId decision _ _ _ _ =>
    ∃ request, p.pendingPermissions.get? requestId = some request ∧
      request.decision = some decision
  | .agentContextCaptured agentId references =>
    ∃ inst, p.agentInstances.get? agentId = some inst ∧ inst.context = references
  | .agentResultDelivered agentId _ _ result =>
    ∃ inst, p.agentInstances.get? agentId = some inst ∧ inst.result = some result
  | .contextFactRecorded fact => p.context.durableFacts.any (·.factId == fact.factId) = true
  | _ => False

theorem call?_eq_some {runId callId : String} {call : ToolCallProjection} :
    p.call? runId callId = some call ↔
      ∃ run, p.runs.get? runId = some run ∧ run.toolCalls.get? callId = some call :=
  Option.bind_eq_some_iff

/-! ## An accepted decision is recorded -/

theorem call?_insert {run run' : RunProjection} {runId callId : String}
    {call : ToolCallProjection} (hrun' : run'.toolCalls = run.toolCalls.insert callId call) :
    ({ p with runs := p.runs.insert runId run' } : SessionProjection).call? runId callId =
      some call := by
  simp [call?, hrun']

theorem updateCall_call? {runId callId : String}
    {f : ToolCallProjection → Except ProjectionError ToolCallProjection}
    (h : p.updateRun runId (fun run => run.updateCall callId f) = .ok q) :
    ∃ call call', f call = .ok call' ∧ q.call? runId callId = some call' := by
  obtain ⟨run, run', hrun, hupdate, rfl⟩ := updateRun_eq_ok.mp h
  obtain ⟨call, call', hcall, hf, rfl⟩ := updateCall_eq_ok.mp hupdate
  exact ⟨call, call', hf, call?_insert rfl⟩

theorem apply_records (hdecides : e.decides = true) (h : p.apply eventId e = .ok q) :
    q.Records e := by
  obtain ⟨state, -, h⟩ := apply_eq_ok.mp h
  cases e
  case toolResult runId callId agentId toolName result =>
    obtain ⟨call, call', hf, hcall'⟩ := updateCall_call? h
    refine ⟨call', hcall', ?_⟩
    split at hf
    · cases hf
      rfl
    · next hsome =>
      obtain ⟨rfl, hsame⟩ := Except.ite_ok_eq_ok.mp hf
      cases hsame
      exact hsome
  case toolExecutionStarted runId callId executionId =>
    obtain ⟨call, call', hf, hcall'⟩ := updateCall_call? h
    obtain ⟨hnative, hf⟩ := Except.ite_error_eq_ok.mp hf
    have hnative : call.native = true := by simpa using hnative
    refine ⟨call', hcall', ?_⟩
    split at hf
    · cases hf
      exact ⟨rfl, hnative⟩
    · next hsome =>
      obtain ⟨rfl, hsame⟩ := Except.ite_ok_eq_ok.mp hf
      cases hsame
      exact ⟨hsome, hnative⟩
  case permissionResolved requestId decision _ _ _ _ =>
    simp only [applyEvent] at h
    split at h
    · cases h
    · next request hrequest =>
      split at h
      · cases h
        exact ⟨_, SortedMap.get?_insert_self .., rfl⟩
      · next hsome =>
        obtain ⟨rfl, hsame⟩ := Except.ite_ok_eq_ok.mp h
        cases hsame
        exact ⟨request, hrequest, hsome⟩
  case agentContextCaptured agentId references =>
    obtain ⟨inst, inst', -, hf, rfl⟩ := updateInstance_eq_ok.mp h
    obtain ⟨-, hf⟩ := Except.ite_error_eq_ok.mp hf
    cases hf
    exact ⟨_, SortedMap.get?_insert_self .., rfl⟩
  case agentResultDelivered agentId _ _ result =>
    obtain ⟨inst, inst', -, hf, rfl⟩ := updateInstance_eq_ok.mp h
    refine ⟨inst', SortedMap.get?_insert_self .., ?_⟩
    split at hf
    · cases hf
      rfl
    · next hsome =>
      obtain ⟨rfl, hsame⟩ := Except.ite_ok_eq_ok.mp hf
      cases hsame
      exact hsome
  case contextFactRecorded fact =>
    simp only [applyEvent] at h
    split at h
    · next hknown =>
      cases h
      exact hknown
    · cases h
      simp [Records]
  all_goals cases hdecides

/-! ## What is recorded stays recorded -/

/-- Whether a call is native does not change. -/
theorem apply_call_native (h : p.apply eventId e = .ok q) {runId callId : String}
    {call call' : ToolCallProjection} (hcall : p.call? runId callId = some call)
    (hcall' : q.call? runId callId = some call') : call'.native = call.native := by
  have hchange := apply_call h runId callId
  rw [hcall, hcall'] at hchange
  cases hchange <;> rfl

theorem Records.apply (hp : p.Distinct) {d : SemanticEvent} (hdecides : d.decides = true)
    (hd : p.Records d) (h : p.apply eventId e = .ok q) : q.Records d := by
  have hkeeps := Keeps.apply hp h
  cases d
  case toolResult runId callId agentId toolName result =>
    obtain ⟨call, hcall, hresult⟩ := hd
    obtain ⟨call', hcall', hkept, -⟩ := hkeeps.call hcall
    exact ⟨call', hcall', hkept result hresult⟩
  case toolExecutionStarted runId callId executionId =>
    obtain ⟨call, hcall, hexecution, hnative⟩ := hd
    obtain ⟨call', hcall', -, hkept⟩ := hkeeps.call hcall
    refine ⟨call', hcall', hkept executionId hexecution, ?_⟩
    rw [apply_call_native h hcall hcall', hnative]
  case permissionResolved requestId decision _ _ _ _ =>
    obtain ⟨request, hrequest, hdecision⟩ := hd
    obtain ⟨request', hrequest', hkept⟩ := hkeeps.permission hrequest
    exact ⟨request', hrequest', hkept decision hdecision⟩
  case agentContextCaptured agentId references =>
    obtain ⟨inst, hinst, rfl⟩ := hd
    obtain ⟨inst', hinst', -, hkept⟩ := hkeeps.agent hinst
    refine ⟨inst', hinst', hkept ?_⟩
    simpa [SemanticEvent.decides] using hdecides
  case agentResultDelivered agentId _ _ result =>
    obtain ⟨inst, hinst, hresult⟩ := hd
    obtain ⟨inst', hinst', hkept, -⟩ := hkeeps.agent hinst
    exact ⟨inst', hinst', hkept result hresult⟩
  case contextFactRecorded fact =>
    rcases apply_facts h with hfacts | ⟨new, -, hfacts⟩
    · rwa [Records, hfacts]
    · rw [Records, hfacts, List.any_append, Bool.or_eq_true]
      exact .inl hd
  all_goals cases hd

theorem Records.applyLog (hp : p.Distinct) {d : SemanticEvent} (hdecides : d.decides = true)
    (hd : p.Records d) {log : List (Nat × SemanticEvent)} (h : p.applyLog log = .ok q) :
    q.Records d := by
  have hboth : q.Distinct ∧ q.Records d := by
    refine applyLog_preserves (I := fun p => p.Distinct ∧ p.Records d) ?_ ⟨hp, hd⟩ h
    intro p q eventId e hI happly
    exact ⟨hI.1.apply happly, hI.2.apply hI.1 hdecides happly⟩
  exact hboth.2

/-! ## A recorded decision comes again -/

/-- The projection after an event that moves only its position. -/
def moveTo (p : SessionProjection) (eventId : Nat) : SessionProjection :=
  { p with state := { p.state with lastEventId := some eventId } }

theorem updateRun_eq_self {runId : String} {run : RunProjection}
    {f : RunProjection → Except ProjectionError RunProjection}
    (hrun : p.runs.get? runId = some run) (hf : f run = .ok run) : p.updateRun runId f = .ok p :=
  updateRun_eq_ok.mpr ⟨run, run, hrun, hf, by rw [SortedMap.insert_eq_self hrun]⟩

theorem updateCall_eq_self {run : RunProjection} {callId : String} {call : ToolCallProjection}
    {f : ToolCallProjection → Except ProjectionError ToolCallProjection}
    (hcall : run.toolCalls.get? callId = some call) (hf : f call = .ok call) :
    run.updateCall callId f = .ok run :=
  updateCall_eq_ok.mpr ⟨call, call, hcall, hf, by rw [SortedMap.insert_eq_self hcall]⟩

theorem updateInstance_eq_self {agentId : String} {inst : AgentProjection}
    {f : AgentProjection → Except ProjectionError AgentProjection}
    (hinst : p.agentInstances.get? agentId = some inst) (hf : f inst = .ok inst) :
    p.updateInstance agentId f = .ok p :=
  updateInstance_eq_ok.mpr ⟨inst, inst, hinst, hf, by rw [SortedMap.insert_eq_self hinst]⟩

theorem Records.applyEvent (hd : p.Records e) : p.applyEvent eventId e = .ok p := by
  cases e
  case toolResult runId callId agentId toolName result =>
    obtain ⟨call, hcall, hresult⟩ := hd
    obtain ⟨run, hrun, hcall⟩ := call?_eq_some.mp hcall
    exact updateRun_eq_self hrun (updateCall_eq_self hcall (by simp [hresult]))
  case toolExecutionStarted runId callId executionId =>
    obtain ⟨call, hcall, hexecution, hnative⟩ := hd
    obtain ⟨run, hrun, hcall⟩ := call?_eq_some.mp hcall
    exact updateRun_eq_self hrun (updateCall_eq_self hcall (by simp [hexecution, hnative]))
  case permissionResolved requestId decision _ _ _ _ =>
    obtain ⟨request, hrequest, hdecision⟩ := hd
    simp [SessionProjection.applyEvent, hrequest, hdecision]
  case agentContextCaptured agentId references =>
    obtain ⟨inst, hinst, rfl⟩ := hd
    exact updateInstance_eq_self hinst (by simp)
  case agentResultDelivered agentId _ _ result =>
    obtain ⟨inst, hinst, hresult⟩ := hd
    exact updateInstance_eq_self hinst (by simp [hresult])
  case contextFactRecorded fact =>
    exact if_pos hd
  all_goals cases hd

/-- A decision leaves phase and revision alone. -/
theorem applyPhase_of_decides {s : SessionState} (hdecides : e.decides = true) :
    s.applyPhase e = .ok s := by
  cases e <;> first | rfl | cases hdecides

theorem Records.again (hdecides : e.decides = true) (hd : p.Records e) (eventId : Nat) :
    p.apply eventId e = .ok (p.moveTo eventId) := by
  refine apply_eq_ok.mpr ⟨{ p.state with lastEventId := some eventId }, ?_, ?_⟩
  · rw [SessionState.apply, applyPhase_of_decides hdecides]
    rfl
  -- the position is no part of what is recorded
  have hmoved : (p.moveTo eventId).Records e := by
    cases e <;> exact hd
  exact hmoved.applyEvent

/-- **Accepted decisions can be replayed.** Every decision of an accepted log is accepted again at
its end, under any id, and changes nothing but the position of the session. -/
theorem decisions_repeat (sessionId : String) (log : List (Nat × SemanticEvent))
    (p : SessionProjection) (h : (SessionProjection.new sessionId).applyLog log = .ok p) (id : Nat)
    (e : SemanticEvent) (he : (id, e) ∈ log) (hdecides : e.decides = true) (eventId : Nat) :
    p.apply eventId e = .ok { p with state := { p.state with lastEventId := some eventId } } := by
  have hrecords : p.Records e := by
    obtain ⟨before, after, rfl⟩ := List.append_of_mem he
    obtain ⟨p₁, hbefore, hrest⟩ := applyLog_append_eq_ok.mp h
    obtain ⟨p₂, happly, hafter⟩ := applyLog_cons_eq_ok.mp hrest
    have hp₁ : p₁.Distinct :=
      applyLog_preserves (fun hp h => Distinct.apply hp h) (Distinct.new sessionId) hbefore
    exact (apply_records hdecides happly).applyLog (hp₁.apply happly) hdecides hafter
  exact hrecords.again hdecides eventId

/-- The claim of a call and its result, in a log that goes on behind them. -/
def claimedLog : List (Nat × SemanticEvent) :=
  [(1, .sessionCreated none),
    (2, .runQueued "r" none "p" "m" .null),
    (3, .runStarted "r" "a" 1),
    (4, .messageStarted "m" "a" .assistant (.agent "a")),
    (5, .toolCallEmitted "r" "m" "c" "a" "read" .null "{}" true),
    (6, .messageCompleted "m"),
    (7, .toolExecutionStarted "r" "c" "x"),
    (8, .toolResult "r" "c" "a" "read" .null),
    (9, .runCompleted "r" none)]

theorem decisions_repeat_claimedLog : ∃ p, (SessionProjection.new "s").applyLog claimedLog = .ok p ∧
    p.apply 10 (.toolExecutionStarted "r" "c" "x") =
      .ok { p with state := { p.state with lastEventId := some 10 } } :=
  ⟨_, rfl, decisions_repeat "s" claimedLog _ rfl 7 (.toolExecutionStarted "r" "c" "x")
    (by simp [claimedLog]) rfl 10⟩

end SessionProjection

end Piqo
