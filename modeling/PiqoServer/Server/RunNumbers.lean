import PiqoServer.Server.Invariants
import PiqoServer.Server.Startup

/-!
# The numbers of attempts

Starting a run and trying a connection again both set the number of attempts at the run. What they
set it to is computed from a copy of the run that the worker took before.

## Main definitions

* `SemanticEvent.attempt?`: the number that an event sets
* `SessionProjection.QueueFresh`: no attempt has been made at a queued run
* `ServerOp.attempts`: the numbers that executing a run sets

## Main results

* `SessionProjection.attempts_set`, `SessionProjection.attempts_kept`: what an event does to them
* `Store.Sound.queueFresh_view`: no session shows an attempt at a queued run
* `executeAndFinish_attempts`: executing a run sets numbers above that of the copy only
-/

namespace Piqo

/-! ## The number of attempts -/

/-- The run and the number of its attempts that an event sets. -/
def SemanticEvent.attempt? : SemanticEvent → Option (String × Nat)
  | .runStarted runId _ attempt | .runAttemptStarted runId _ attempt => some (runId, attempt)
  | _ => none

namespace SessionProjection

variable {p q : SessionProjection} {eventId : Nat} {e : SemanticEvent} {runId : String}

/-- The attempts at a run. -/
def attempts (p : SessionProjection) (runId : String) : Nat :=
  ((p.runs.get? runId).map (·.attempts)).getD 0

theorem attempts_of_get? {run : RunProjection} (h : p.runs.get? runId = some run) :
    p.attempts runId = run.attempts := by
  rw [attempts, h]
  rfl

theorem attempts_insert {id : String} {run : RunProjection} (h : q.runs = p.runs.insert id run)
    (runId : String) :
    q.attempts runId = if runId = id then run.attempts else p.attempts runId := by
  rw [attempts, h, SortedMap.get?_insert]
  by_cases hid : runId = id
  · rw [if_pos hid, if_pos hid]
    rfl
  · rw [if_neg hid, if_neg hid, attempts]

/-- An event that sets a number sets that of its run. -/
theorem attempts_set (h : p.apply eventId e = .ok q) {id : String} {k : Nat}
    (he : e.attempt? = some (id, k)) :
    q.attempts runId = if runId = id then k else p.attempts runId := by
  obtain ⟨state, -, heq⟩ := apply_eq_ok.mp h
  cases e with
  | runStarted startedId attemptId attempt =>
    cases he
    simp only [applyEvent, updateRun_eq_ok, Except.map_eq_ok, Except.ite_ok_eq_ok,
      Except.ok.injEq, setQueuePaused] at heq
    obtain ⟨_, ⟨run, _, -, ⟨-, rfl⟩, rfl⟩, rfl⟩ := heq
    exact @attempts_insert p _ id { run with
      status := .running, attemptId := some attemptId, attempts := k } rfl runId
  | runAttemptStarted startedId attemptId attempt =>
    cases he
    simp only [applyEvent, updateRun_eq_ok, Except.ite_ok_eq_ok, Except.ok.injEq] at heq
    obtain ⟨run, _, -, ⟨-, rfl⟩, rfl⟩ := heq
    exact @attempts_insert p _ id { run with attemptId := some attemptId, attempts := k } rfl runId
  | _ => cases he

/-- No other event changes the number. -/
theorem attempts_kept (h : p.apply eventId e = .ok q) (he : e.attempt? = none) :
    q.attempts runId = p.attempts runId := by
  -- An event writes one run at most, and only two kinds of changes touch its number.
  rcases apply_runs h with hruns | ⟨id, run', hruns, hchange⟩
  · rw [attempts, hruns, attempts]
  rw [attempts_insert hruns]
  split
  swap
  · rfl
  next hid =>
  subst hid
  generalize hbefore : p.runs.get? runId = before at hchange
  cases hchange with
  | queued he' => rw [attempts, hbefore]; rfl
  | started run he' => simp [he', SemanticEvent.attempt?] at he
  | attempted run he' => simp [he', SemanticEvent.attempt?] at he
  | _ => rw [attempts_of_get? hbefore]

/-- No attempt has been made at a queued run. -/
structure QueueFresh (p : SessionProjection) : Prop where
  keyed : p.WellKeyed
  fresh : ∀ {runId run}, p.runs.get? runId = some run → run.status = .queued → run.attempts = 0

theorem QueueFresh.new (sessionId : String) : (new sessionId).QueueFresh where
  keyed := .new sessionId
  fresh h := by simp [SessionProjection.new] at h

theorem QueueFresh.apply (hp : p.QueueFresh) (h : p.apply eventId e = .ok q) : q.QueueFresh where
  keyed := hp.keyed.apply h
  fresh := by
    intro runId run hrun hqueued
    -- A run is queued once, by the event that makes it.
    rcases apply_runs h with hruns | ⟨id, run', hruns, hchange⟩
    · exact hp.fresh (hruns ▸ hrun) hqueued
    rw [hruns, SortedMap.get?_insert] at hrun
    split at hrun
    swap
    · exact hp.fresh hrun hqueued
    next hid =>
    subst hid
    obtain rfl := Option.some.inj hrun
    generalize hbefore : p.runs.get? runId = before at hchange
    cases hchange with
    | queued he => rfl
    | attempted run he hstatus => exact absurd (hstatus.symm.trans hqueued) nofun
    | attemptFailed run he => exact show run.attempts = 0 from hp.fresh hbefore hqueued
    | emitted run he hnew => exact show run.attempts = 0 from hp.fresh hbefore hqueued
    | claimed run call he hcall hnative hfree =>
      exact show run.attempts = 0 from hp.fresh hbefore hqueued
    | answered run call he hcall hopen =>
      exact show run.attempts = 0 from hp.fresh hbefore hqueued
    | _ => cases hqueued

theorem QueueFresh.of_reload (h : p.reload.QueueFresh) : p.QueueFresh where
  keyed := Store.wellKeyed_of_reload h.keyed
  fresh := by
    intro runId run hrun hqueued
    have hreload : p.reload.runs.get? runId = some run.reload := by
      rw [reload, SortedMap.get?_mapValues, hrun, Option.map_some]
    have hfresh : run.reload.attempts = 0 := @QueueFresh.fresh _ h runId run.reload hreload hqueued
    exact hfresh

/-- The run that is started next. -/
theorem QueueFresh.queued (hp : p.QueueFresh) {run : RunProjection}
    (h : p.queuedRuns.head? = some run) :
    p.runs.get? run.runId = some run ∧ run.attempts = 0 := by
  have hmem : run ∈ p.queuedRuns := List.mem_of_head? h
  rw [queuedRuns, List.mem_mergeSort, List.mem_filter] at hmem
  have hrun := (mem_values_runs hp.keyed).mp hmem.1
  exact ⟨hrun, hp.fresh hrun (by simpa using hmem.2)⟩

/-- The run that goes on. -/
theorem QueueFresh.ready (hp : p.QueueFresh) {run : RunProjection}
    (h : p.readyActionRun = some run) : p.runs.get? run.runId = some run :=
  (mem_values_runs hp.keyed).mp (List.mem_of_find?_eq_some h)

end SessionProjection

/-- No session shows an attempt at a queued run. -/
theorem Store.Sound.queueFresh_view {store : Store} (h : store.Sound) {sessionId : String}
    {p : SessionProjection} (hview : store.view sessionId = some p) : p.QueueFresh :=
  .of_reload (h.view_preserves hview (.new _) fun happly hp => hp.apply happly)

/-! ## Executing a run -/

/-- The operations that set no number, and those of a run that set one above that of the copy. -/
def ServerOp.attempts (sessionId : String) (run : RunProjection) : ServerOp → Prop
  | .store (.append id events) => (∀ e ∈ events, e.attempt? = none) ∨
      id = sessionId ∧ ∃ attemptId k, events = [.runAttemptStarted run.runId attemptId k] ∧
        run.attempts < k
  | .store (.projection _) | .store (.getSession _) | .store (.agentLinks _) => True
  | .store _ => False
  | _ => True

/-- A program of these operations. -/
abbrev Attempts {ε α : Type} (sessionId : String) (run : RunProjection)
    (p : Program serverSignature ε α) : Prop :=
  p.Only (ServerOp.attempts sessionId run)

section Executing

variable {ε α β : Type} {id sessionId messageId runId : String} {run : RunProjection}

theorem ServerOp.attempts_of_routine {op : ServerOp} (h : op.routine = true) :
    op.attempts sessionId run := by
  unfold ServerOp.attempts
  split <;> trivial

theorem Attempts.append {e : SemanticEvent} (he : e.attempt? = none) :
    Attempts sessionId run (append id e) := by
  refine only_append (fun _ => ServerOp.attempts_of_routine) (.inl fun e' he' => ?_)
  rw [List.mem_singleton.mp he']
  exact he

theorem Attempts.again {attemptId : String} {k : Nat} (hk : run.attempts < k) :
    Attempts sessionId run (Piqo.append sessionId (.runAttemptStarted run.runId attemptId k)) :=
  only_append (fun _ => ServerOp.attempts_of_routine) (.inr ⟨rfl, attemptId, k, rfl, hk⟩)

theorem Silent.attempts {p : Program serverSignature ε α} (h : Silent p) :
    Attempts sessionId run p := by
  refine Program.Only.mono h fun op hop => ?_
  rcases op with op | _ | _ | op
  · cases op <;> trivial
  all_goals trivial

theorem Attempts.orFail {p : ServerProgram α} (h : Attempts sessionId run p) :
    Attempts sessionId run (Piqo.orFail p) :=
  Program.Follows.recover h (fun _ _ _ => trivial) fun _ _ _ => trivial

theorem Attempts.exit {result : ExecutionResult} :
    Attempts sessionId run (exit result : TurnProgram α) := trivial

theorem Attempts.query {op : ExternalOp} {f : op.Reply → TurnProgram β}
    (hf : ∀ r, Attempts sessionId run (f r)) : Attempts sessionId run (Piqo.query op >>= f) :=
  ⟨trivial, hf⟩

/-! ### Reading a response -/

theorem isNativeCallOrFalse_attempts {toolName : String} :
    Attempts sessionId run (isNativeCallOrFalse id runId toolName) :=
  (isNativeCall_silent id runId toolName).attempts.attempt.bind fun native => by
    cases native <;> exact .ret _

theorem parseArguments_attempts {text : String} : Attempts sessionId run (parseArguments text) :=
  only_ask trivial fun parsed => by cases parsed <;> exact .ret _

theorem persistDelta_attempts (delta : ProviderDelta) :
    Attempts sessionId run (persistDelta id runId messageId delta) := by
  cases delta with
  | text text => exact (Attempts.append rfl).bind fun _ => .ret _
  | toolCall callId name arguments =>
    have hrest : ∀ callId : String, Attempts sessionId run
        (isNativeCallOrFalse id runId (name.getD "function") >>= fun native =>
          parseArguments arguments >>= fun parsed =>
            append id (.toolCallEmitted runId messageId callId "assistant"
              (name.getD "function") parsed arguments native) >>= fun _ =>
              (.ret DeltaResult.none : ServerProgram DeltaResult)) := fun callId =>
      isNativeCallOrFalse_attempts.bind fun native => parseArguments_attempts.bind fun parsed =>
        (Attempts.append rfl).bind fun _ => .ret _
    cases callId with
    | some callId => exact hrest callId
    | none => exact only_ask trivial hrest
  | toolCallDelta index callId name arguments => exact .fail _
  | usage value => exact .ret _
  | completed => exact .ret _
  | requiresAction => exact (Attempts.append rfl).bind fun _ => .ret _

theorem recordDelta_attempts (st : StreamState) (delta : ProviderDelta) :
    Attempts sessionId run (recordDelta id runId messageId st delta) :=
  (persistDelta_attempts delta).attempt.bind fun outcome => by
    rcases outcome with e | (_ | _ | _) <;> exact .ret _

theorem flushText_attempts (st : StreamState) :
    Attempts sessionId run (flushText id runId messageId st) :=
  (persistDelta_attempts _).attempt.bind fun outcome => by cases outcome <;> exact .ret _

theorem flushTools_attempts (buffers : List (String × ToolCallBuffer)) (outcome : ExecutionResult) :
    Attempts sessionId run (flushTools id runId messageId buffers outcome) := by
  induction buffers with
  | nil => exact .ret _
  | cons buffer buffers ih =>
    refine (persistDelta_attempts _).attempt.bind fun result => ?_
    rcases result with e | (_ | _ | _)
    · exact .ret _
    · exact ih
    · exact ih
    · exact .ret _

theorem readDelta_attempts (st : StreamState) (delta : ProviderDelta) :
    Attempts sessionId run (readDelta id runId messageId st delta) := by
  cases delta with
  | text text =>
    have hdue : Attempts sessionId run (textDue (st.textBuffer ++ text)) :=
      iteInduction (fun _ => ⟨trivial, fun _ => trivial⟩) fun _ => .ret _
    exact hdue.bind fun due => iteInduction (fun _ => flushText_attempts _) fun _ => .ret _
  | completed => exact (flushTools_attempts _ _).bind fun _ => recordDelta_attempts _ _
  | toolCallDelta index callId name arguments => exact .ret _
  | toolCall callId name arguments => exact recordDelta_attempts _ _
  | usage value => exact recordDelta_attempts _ _
  | requiresAction => exact recordDelta_attempts _ _

theorem readDeltas_attempts (deltas : List ProviderDelta) (st : StreamState) :
    Attempts sessionId run (readDeltas id runId messageId deltas st) := by
  induction deltas generalizing st with
  | nil => exact .ret _
  | cons delta deltas ih =>
    exact (readDelta_attempts st delta).bind fun v => iteInduction (fun _ => .ret _) fun _ => ih v.1

theorem readFrames_attempts (frames : List (Except String (List ProviderDelta)))
    (st : StreamState) : Attempts sessionId run (readFrames id runId messageId frames st) := by
  induction frames generalizing st with
  | nil => exact .ret _
  | cons frame frames ih =>
    cases frame with
    | error e => exact .ret _
    | ok deltas =>
      exact (readDeltas_attempts deltas st).bind fun st' =>
        iteInduction (fun _ => .ret _) fun _ => ih st'

theorem readItems_attempts (items : List StreamItem) (st : StreamState) :
    Attempts sessionId run (readItems id runId messageId items st) := by
  induction items generalizing st with
  | nil => exact .ret _
  | cons item items ih =>
    cases item with
    | cancelled => exact .exit
    | shutdown => exact .exit
    | broken e => exact .ret _
    | tick =>
      refine iteInduction (fun _ => ih st) fun _ => ?_
      exact (flushText_attempts st).orFail.bind fun v =>
        iteInduction (fun _ => .ret _) fun _ => ih v.1
    | chunk frames =>
      exact (readFrames_attempts frames st).orFail.bind fun st' =>
        iteInduction (fun _ => .ret _) fun _ => ih st'

theorem readWhole_attempts (deltas : List ProviderDelta) (st : StreamState) :
    Attempts sessionId run (readWhole id runId messageId deltas st) := by
  induction deltas generalizing st with
  | nil => exact .ret _
  | cons delta deltas ih =>
    have hrecord : Attempts sessionId run (recordDelta id runId messageId st delta >>= fun v =>
        if v.2 then Program.ret v.1 else readWhole id runId messageId deltas v.1) :=
      (recordDelta_attempts st delta).bind fun v => iteInduction (fun _ => .ret _) fun _ => ih v.1
    cases delta with
    | text text => exact ih _
    | _ => exact hrecord

theorem readResponse_attempts (body : Json) (response : ProviderResponse) :
    Attempts sessionId run (readResponse id runId messageId body response) := by
  have hbody : Attempts sessionId run (readBody id runId messageId body response) := by
    refine iteInduction (fun _ => ?_) fun _ => ?_
    · exact (readItems_attempts response.stream {}).bind fun st =>
        iteInduction (fun _ => .ret _) fun _ => .ret _
    · rcases response.text with _ | _ | e | (e | deltas)
      · exact .exit
      · exact .exit
      · exact .ret _
      · exact .ret _
      · exact (readWhole_attempts deltas {}).orFail
  have hrest : ∀ st, Attempts sessionId run (flushRest id runId messageId st) := fun st =>
    iteInduction (fun _ => .ret _) fun _ => Program.Only.bind
      (Program.Follows.recover (persistDelta_attempts _) (fun _ _ _ => trivial)
        fun _ _ _ => trivial) fun _ => .ret _
  have hstatus : Attempts sessionId run (checkStatus response) :=
    iteInduction (fun _ => .ret _) fun _ => .exit
  exact hstatus.bind fun _ => hbody.bind fun st => (hrest st).bind fun _ => .ret _

/-! ### Preparing a request -/

theorem buildCompactedBody_attempts (inputs : CompactionInputs) :
    Attempts sessionId run (buildCompactedBody id runId inputs) := by
  have hexceeded : ∀ artifactId, Attempts sessionId run (budgetExceeded id runId artifactId) :=
    fun artifactId => (Attempts.append rfl).bind fun _ => .fail _
  have hsummary : ∀ artifactId selected,
      Attempts sessionId run (compactionSummary id runId inputs artifactId selected) := by
    intro artifactId selected
    unfold compactionSummary
    cases inputs.config.context.compaction.strategy with
    | deterministic => exact .ret _
    | llm =>
      refine (summarizeContext_silent inputs selected).attempts.attempt.bind fun summary => ?_
      cases summary with
      | ok summary => exact .ret _
      | error e => exact (Attempts.append rfl).bind fun _ => .fail _
  refine iteInduction (fun _ => ?_) fun _ => ?_
  · exact (Attempts.append rfl).bind fun _ => only_onStore trivial fun _ => .ofExcept _
  refine only_onStore trivial fun projection => (Program.Only.ofExcept _).bind fun body => ?_
  refine (contextBudget_silent _).attempts.bind fun budget => ?_
  refine iteInduction (fun _ => .fail _) fun _ => iteInduction (fun _ => .ret _) fun _ => ?_
  cases projection.selected with
  | nil => exact only_ask trivial hexceeded
  | cons first rest =>
    refine only_ask trivial fun artifactId => (Attempts.append rfl).bind fun _ =>
      (hsummary artifactId _).bind fun summary => (Program.Only.ofExcept _).bind fun compacted => ?_
    refine iteInduction (fun _ => hexceeded artifactId) fun _ => ?_
    exact (Attempts.append rfl).bind fun _ => .ret _

theorem chooseExecution_attempts (request : RunRequest) (earlier : Option RunExecution) :
    Attempts sessionId run (chooseExecution request earlier) := by
  cases earlier with
  | some execution => exact .ret _
  | none =>
    refine Attempts.query fun config => ?_
    cases config with
    | error text => exact .exit
    | ok config =>
      refine Attempts.query fun provider => ?_
      cases provider with
      | error e => exact .exit
      | ok provider => exact .ret _

theorem execution_attempts (request : RunRequest)
    (chosen : RunExecution ⊕ (PiqoConfig × ResolvedProvider)) :
    Attempts sessionId run (execution sessionId run request chosen) := by
  cases chosen with
  | inl execution => exact .ret _
  | inr chosen =>
    exact Attempts.orFail (only_onStore trivial fun _ => only_ask trivial fun _ =>
      (buildCompactedBody_attempts _).bind fun _ => .ret _)

theorem enterInput_attempts (request : RunRequest) (existing : Option String) :
    Attempts sessionId run (enterInput sessionId run request existing) :=
  iteInduction (fun _ => Attempts.orFail (only_ask trivial fun _ => (Attempts.append rfl).bind
    fun _ => (Attempts.append rfl).bind fun _ => (Attempts.append rfl).bind fun _ => .ret _))
    fun _ => .ret _

theorem checkSize_attempts (body : Json) : Attempts sessionId run (checkSize body) :=
  Attempts.query fun config => by
    cases config with
    | error text => exact .exit
    | ok config => exact iteInduction (fun _ => .exit) fun _ => .ret _

theorem openAssistantMessage_attempts (existing : Option String) :
    Attempts sessionId run (openAssistantMessage sessionId existing) := by
  cases existing with
  | some messageId => exact .ret _
  | none => exact Attempts.query fun _ => (Attempts.append rfl).orFail.bind fun _ => .ret _

theorem recordFailedAttempt_attempts (attemptId error : String) :
    Attempts sessionId run (recordFailedAttempt sessionId run.runId attemptId error) :=
  (Attempts.append rfl).attempt.bind fun _ => .ret _

/-! ### The attempts -/

/-- The number of an attempt counts from that of the copy on. -/
theorem startAttempt_attempts {left : Nat} (hleft : left ≤ maxRetries) :
    Attempts sessionId run (startAttempt sessionId run left) := by
  -- The start of the run has set the number of the first attempt.
  refine iteInduction (fun _ => ?_) fun hfirst => ?_
  · cases run.attemptId with
    | some attemptId => exact .ret _
    | none => exact ⟨trivial, fun _ => trivial⟩
  · exact Attempts.query fun attemptId => (Attempts.again (by omega)).orFail.bind fun _ => .ret _

theorem sendRequest_attempts (body : Json) {left : Nat} (hleft : left ≤ maxRetries)
    (attemptId : String) :
    Attempts sessionId run (sendRequest sessionId run body left attemptId) := by
  -- Induction on the retries left: with none left nothing is set.
  induction left generalizing attemptId with
  | zero =>
    unfold sendRequest
    refine Attempts.query fun reply => ?_
    cases reply with
    | response response => exact .ret _
    | _ => exact .exit
  | succ left ih =>
    unfold sendRequest
    refine Attempts.query fun reply => ?_
    cases reply with
    | cancelled => exact .exit
    | shutdown => exact .exit
    | response response => exact .ret _
    | failed error =>
      -- the number counts the retries made, from that of the copy on
      refine (recordFailedAttempt_attempts attemptId error).orFail.bind fun _ =>
        Attempts.query fun next => ?_
      refine (Attempts.again (by omega)).orFail.bind fun _ => Attempts.query fun shutdown => ?_
      exact iteInduction (fun _ => .exit) fun _ => ih (Nat.le_of_succ_le hleft) next

theorem attemptRun_attempts (earlier : Option RunExecution) (existing : Option String) {left : Nat}
    (hleft : left ≤ maxRetries) :
    Attempts sessionId run (attemptRun sessionId run earlier existing left) := by
  have hrequest : Attempts sessionId run
      (orFail (expect .json (RunRequest.ofJson? run.request))) := by
    cases RunRequest.ofJson? run.request with
    | none => trivial
    | some request => exact .ret _
  refine hrequest.bind fun request => (chooseExecution_attempts request earlier).bind fun chosen =>
    (startAttempt_attempts hleft).bind fun attemptId =>
      (enterInput_attempts request existing).bind fun _ =>
        (execution_attempts request chosen).bind fun execution =>
          (checkSize_attempts _).bind fun _ => (openAssistantMessage_attempts existing).bind
            fun assistantMessageId => ?_
  have hbuild : Attempts sessionId run (buildRequest execution.body) :=
    Attempts.query fun reply => by
      cases reply with
      | error message => exact .exit
      | ok => exact .ret _
  exact hbuild.bind fun _ => (sendRequest_attempts _ hleft attemptId).bind fun sent =>
    (readResponse_attempts _ sent.1).bind fun _ => .ret _

theorem executeAttempts_attempts {left : Nat} (hleft : left ≤ maxRetries)
    (earlier : Option RunExecution) (existing : Option String) :
    Attempts sessionId run (executeAttempts sessionId run earlier existing left) := by
  -- Induction on the retries left, as before.
  induction left generalizing earlier existing with
  | zero =>
    unfold executeAttempts
    refine (attemptRun_attempts earlier existing hleft).bind fun a => ?_
    cases houtcome : a.state.outcome with
    | failed error retryable =>
      cases retryable with
      | false => exact .ret _
      | true => exact Attempts.query fun _ => iteInduction (fun _ => .ret _) fun _ => .ret _
    | _ => exact .ret _
  | succ left ih =>
    unfold executeAttempts
    refine (attemptRun_attempts earlier existing hleft).bind fun a => ?_
    cases houtcome : a.state.outcome with
    | failed error retryable =>
      cases retryable with
      | false => exact .ret _
      | true =>
        refine Attempts.query fun shutdown => iteInduction (fun _ => .ret _) fun _ => ?_
        refine (recordFailedAttempt_attempts _ error).orFail.bind fun _ =>
          Attempts.query fun slept => ?_
        exact iteInduction (fun _ => .ret _) fun _ => ih (Nat.le_of_succ_le hleft) _ _
    | _ => exact .ret _

theorem executeRunWithChildTimeout_attempts :
    Attempts sessionId run (executeRunWithChildTimeout sessionId run) := by
  have hexecute : Attempts sessionId run (executeRun sessionId run) :=
    Program.Follows.recover (executeAttempts_attempts le_rfl none none) (fun _ _ _ => trivial)
      fun _ _ _ => trivial
  have htimeout : ∀ {p : ServerProgram ExecutionResult}, Attempts sessionId run p →
      Attempts sessionId run (withTimeout p) := by
    intro p hp
    -- the timeout ends the program in front of an operation
    induction p with
    | ret result => trivial
    | fail e => trivial
    | call op k ih =>
      refine ⟨trivial, fun late => ?_⟩
      exact iteInduction (fun _ => trivial) fun _ => ⟨hp.1, fun r => ih r (hp.2 r)⟩
  refine (childBudget_silent sessionId).attempts.attempt.bind fun budget => ?_
  rcases budget with e | (_ | budget)
  · exact .ret _
  · exact hexecute
  · refine (htimeout hexecute).bind fun result => ?_
    cases result with
    | some result => exact .ret _
    | none => exact only_ask trivial fun _ => .ret _

theorem finishRun_attempts (fuel : Nat) {result : ExecutionResult} (hresult : result ≠ .completed) :
    Attempts sessionId run (finishRun fuel id run result) := by
  have hpause : pauseRun fuel id run result = .ret result := by
    cases result <;> first | rfl | exact absurd rfl hresult
  have hinterrupt : Attempts sessionId run (interruptMessage id) :=
    only_onStore trivial fun p => by
      cases p.openAssistant with
      | none => exact .ret _
      | some message => exact (Attempts.append rfl).bind fun _ => .ret _
  have hcomplete : ∀ find, Attempts sessionId run (completeMessage id find) := fun find =>
    only_onStore trivial fun p => by
      cases find p with
      | none => exact .ret _
      | some message => exact (Attempts.append rfl).bind fun _ => .ret _
  have hclose : Attempts sessionId run (closeRun id run result) := by
    cases result with
    | completed => exact .ret _
    | completedWithUsage usage =>
      exact (hcomplete _).bind fun _ => (Attempts.append rfl).bind fun _ => .ret _
    | requiresAction =>
      exact (hcomplete _).bind fun _ => (Attempts.append rfl).bind fun _ => .ret _
    | _ =>
      exact hinterrupt.bind fun _ => (Attempts.append rfl).bind fun _ =>
        (Attempts.append rfl).bind fun _ => .ret _
  -- A parent is told results and phases, which have no numbers.
  have htells : Attempts sessionId run (deliverChildResult id run.runId) := by
    refine Program.Only.mono (deliverChildResult_tells id run.runId) fun op hop => ?_
    rcases op with op | _ | _ | op
    · cases op with
      | append target events =>
        refine .inl fun e he => ?_
        have hdelivers := hop e he
        cases e <;> first | rfl | cases hdelivers
      | projection | agentLinks => trivial
      | _ => exact hop.elim
    all_goals trivial
  unfold finishRun
  rw [hpause]
  exact hclose.bind fun _ => htells

/-- **Executing a run sets numbers above that of the copy only.** -/
theorem executeAndFinish_attempts (fuel : Nat) :
    Attempts sessionId run (executeAndFinish fuel sessionId run) := by
  refine only_ask trivial fun acquired => ?_
  refine iteInduction (fun _ => ?_) fun _ => .fail _
  have hexecute := Program.Only.returns executeRunWithChildTimeout_attempts
    (@executeRunWithChildTimeout_follows sessionId run) (P := fun x => x ≠ .ok .completed)
    fun t x hover => by
      rintro rfl
      exact hover.2.paused rfl
  refine Program.Follows.bind hexecute (fun _ result hresult => ?_) fun _ _ _ => trivial
  refine only_ask trivial fun _ => ?_
  have hnot : result ≠ .completed := fun hcompleted => hresult (by rw [hcompleted])
  refine (finishRun_attempts fuel hnot).bind fun parent => ?_
  cases parent <;> exact .ret _

end Executing

end Piqo
