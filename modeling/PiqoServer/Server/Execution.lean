import PiqoServer.Server.Responses

/-!
# Executing a run follows the protocol of a turn

An attempt goes through fixed stations: the input, the body, the message of the assistant, the
request, the response. Each part of it either reaches the next station or ends the run.

## Main definitions

* `Turn.At`: a turn at one of the stations
* `Turn.Ends`: a turn that ends its run early
* `Turn.Reaches`: what the result of a turn says about it

## Main results

* `attemptRun_follows`, `executeAttempts_follows`: the attempts
* `executeRun_follows`, `executeRunWithChildTimeout_follows`: executing a run follows the protocol
-/

namespace Piqo

/-! ## An attempt -/

/-- A turn at a run. -/
structure Turn.Of (run : RunProjection) (t : Turn) : Prop where
  runId : t.runId = run.runId
  retryOf : t.retryOf = run.retryOf
  request : t.request = run.request

/-- A turn in which nothing has been recorded of a response. -/
structure Turn.At (run : RunProjection) (writing : Writing) (t : Turn) : Prop where
  of : t.Of run
  writing : t.writing = writing
  emitted : t.emitted = false
  waiting : t.waiting = false

section Attempt

variable {sessionId : String} {run : RunProjection} {writing : Writing} {t : Turn}

theorem Turn.At.faulted (h : t.At run writing) (faulted : Bool) :
    Turn.At run writing { t with faulted } :=
  ⟨⟨h.of.runId, h.of.retryOf, h.of.request⟩, h.writing, h.emitted, h.waiting⟩

theorem Turn.At.hear (h : t.At run writing) (body : Json) (reply : SendReply) :
    (t.hear body reply).At run writing := by
  cases reply <;> exact ⟨⟨h.of.runId, h.of.retryOf, h.of.request⟩, h.writing, h.emitted, h.waiting⟩

/-- A turn that ends its run early; the user's message stays open only after a fault. -/
structure Turn.Ends (run : RunProjection) (t : Turn) (x : TurnExit) : Prop where
  of : t.Of run
  leaves : x.Leaves t
  user : t.writing.userOpen = true → t.faulted = true

theorem Turn.At.ends (h : t.At run writing) (hwriting : writing.userOpen = false) {x : TurnExit}
    (hleaves : x.Leaves t) : t.Ends run x :=
  ⟨h.of, hleaves, fun huser => by rw [h.writing, hwriting] at huser; cases huser⟩

/-- What a part of an attempt leaves. -/
def Attempting (run : RunProjection) (writing : Writing) {α : Type} (P : Turn → α → Prop)
    (t : Turn) : Except TurnExit α → Prop
  | .ok a => t.At run writing ∧ P t a
  | .error x => t.Ends run x

theorem record_attempt {e : SemanticEvent} (he : e.attemptOf? = some t.runId) :
    t.record e = some t := by
  cases e <;> simp_all [Turn.record, SemanticEvent.attemptOf?]

theorem record_context {e : SemanticEvent} (he : e.contextOf? = some t.runId)
    (hwriting : t.writing = .input) : t.record e = some t := by
  cases e <;> simp_all [Turn.record, SemanticEvent.attemptOf?, SemanticEvent.contextOf?]

theorem StoreError.exit_leaves {e : StoreError} {retryable : Bool}
    (hpanic : e = .panicked → t.faulted = true ∨ t.writing.open? = none) :
    (e.exit retryable).Leaves t := by
  cases e <;> first | trivial | exact hpanic rfl

/-- An event of the attempts. -/
theorem appendAttempt_follows {e : SemanticEvent} (h : t.At run writing)
    (he : e.attemptOf? = some run.runId) {β : Type} {f : RecordedEvent → TurnProgram β}
    {Q : Turn → Except TurnExit β → Prop}
    (hok : ∀ record, (f record).Follows (turnAllows sessionId) turnNext Q t)
    (herror : ∀ t' x, t'.At run writing → x.Leaves t' → Q t' (.error x)) :
    (orFail (append sessionId e) >>= f).Follows (turnAllows sessionId) turnNext Q t := by
  have hrecord : t.record e = some t := record_attempt (by rw [h.of.runId]; exact he)
  refine Program.Follows.bind (Q := fun t' x => match x with
    | .ok _ => t' = t
    | .error x => t'.At run writing ∧ x.Leaves t') (follows_orFail (append_follows hrecord) ?_ ?_) ?_ ?_
  · exact fun t' record h => h
  · rintro t' x ⟨faulted, rfl, -, hpanic⟩
    exact ⟨h.faulted faulted, StoreError.exit_leaves fun hx => .inl (hpanic hx)⟩
  · rintro t' record rfl
    exact hok record
  · exact fun t' x hx => herror t' x hx.1 hx.2

theorem startAttempt_follows (h : t.At run writing) (hwriting : writing.userOpen = false)
    (left : Nat) : (startAttempt sessionId run left).Follows (turnAllows sessionId) turnNext
      (Attempting run writing fun _ _ => True) t := by
  unfold startAttempt
  refine iteInduction (fun _ => ?_) fun _ => ?_
  · cases run.attemptId with
    | some attemptId => exact ⟨h, trivial⟩
    | none => exact ⟨trivial, fun _ => ⟨h, trivial⟩⟩
  · refine ⟨trivial, fun attemptId => ?_⟩
    exact appendAttempt_follows h rfl (fun _ => ⟨h, trivial⟩) fun t' x h' => h'.ends hwriting

/-- Where the writing of the user's message can stop. -/
theorem writeUserMessage_follows {request : RunRequest}
    (hrequest : RunRequest.ofJson? run.request = some request) (h : t.At run .nothing) :
    (writeUserMessage sessionId request).Follows (turnAllows sessionId) turnNext (fun t' x =>
      match x with
      | .ok _ => t'.At run .input
      | .error e => t'.Ends run (e.exit false)) t := by
  obtain ⟨hof, hwriting, hemitted, hwaiting⟩ := h
  have hinput : t.input? = some request.inputBlock := by
    rw [Turn.input?, hof.request, hrequest]
    rfl
  refine follows_ask trivial fun messageId => ?_
  have hstarted : t.record (.messageStarted messageId "" .user .user) =
      some { t with writing := .user messageId false } := by
    simp [Turn.record, hwriting]
  refine follows_append hstarted (fun _ => ?_) fun e faulted _ _ => ?_
  swap
  · refine ⟨⟨hof.runId, hof.retryOf, hof.request⟩, StoreError.exit_leaves fun _ => .inr ?_, ?_⟩
    · simp [hwriting, Writing.open?]
    · simp [hwriting, Writing.userOpen]
  have hfilled : ({ t with writing := .user messageId false } : Turn).record
      (.messageContentAppended messageId request.inputBlock) =
        some { t with writing := .user messageId true } :=
    if_pos ⟨rfl, hinput.symm⟩
  refine follows_append hfilled (fun _ => ?_) fun e faulted hsure _ => ?_
  swap
  · exact ⟨⟨hof.runId, hof.retryOf, hof.request⟩, StoreError.exit_leaves fun _ => .inl (hsure rfl),
      fun _ => hsure rfl⟩
  have hcompleted : ({ t with writing := .user messageId true } : Turn).record
      (.messageCompleted messageId) = some { t with writing := .input } := by
    simp [Turn.record]
  refine follows_append hcompleted (fun _ => ?_) fun e faulted hsure _ => ?_
  · exact ⟨⟨hof.runId, hof.retryOf, hof.request⟩, rfl, hemitted, hwaiting⟩
  · exact ⟨⟨hof.runId, hof.retryOf, hof.request⟩, StoreError.exit_leaves fun _ => .inl (hsure rfl),
      fun _ => hsure rfl⟩

/-- The message a turn is at before the user's message is written, and after. -/
def beforeInput (run : RunProjection) : Option String → Writing
  | some messageId => .assistant messageId
  | none => if run.retryOf = none then .nothing else .input

def afterInput : Option String → Writing
  | some messageId => .assistant messageId
  | none => .input

theorem userOpen_beforeInput (run : RunProjection) (existing : Option String) :
    (beforeInput run existing).userOpen = false := by
  cases existing with
  | some messageId => rfl
  | none =>
    rw [beforeInput]
    split <;> rfl

theorem userOpen_afterInput (existing : Option String) :
    (afterInput existing).userOpen = false := by
  cases existing <;> rfl

theorem enterInput_follows {request : RunRequest}
    (hrequest : RunRequest.ofJson? run.request = some request) {existing : Option String}
    (h : t.At run (beforeInput run existing)) :
    (enterInput sessionId run request existing).Follows (turnAllows sessionId) turnNext
      (Attempting run (afterInput existing) fun _ _ => True) t := by
  unfold enterInput
  refine iteInduction (fun hfirst => ?_) fun hfirst => ?_
  · obtain ⟨hretry, rfl⟩ := hfirst
    rw [beforeInput, if_pos hretry] at h
    exact follows_orFail (writeUserMessage_follows hrequest h) (fun t' _ h' => ⟨h', trivial⟩)
      fun t' e h' => h'
  · refine ⟨?_, trivial⟩
    cases existing with
    | some messageId => exact h
    | none =>
      rw [beforeInput, if_neg fun hretry => hfirst ⟨hretry, rfl⟩] at h
      exact h

/-! ## The body -/

/-- An event about the context. -/
theorem appendContext_follows {e : SemanticEvent} (h : t.At run .input)
    (he : e.contextOf? = some run.runId) {β : Type} {f : RecordedEvent → ServerProgram β}
    (hok : ∀ record, (f record).Follows (turnAllows sessionId) turnNext
      (fun t' _ => t'.At run .input) t) :
    (append sessionId e >>= f).Follows (turnAllows sessionId) turnNext
      (fun t' _ => t'.At run .input) t := by
  have hrecord : t.record e = some t := record_context (by rw [h.of.runId]; exact he) h.writing
  exact follows_append hrecord hok fun e faulted _ _ => h.faulted faulted

/-- A silent part of building a body, and what follows it. -/
theorem Silent.builds {α β : Type} {p : ServerProgram α} (hp : Silent p) {f : α → ServerProgram β}
    (h : t.At run .input)
    (hf : ∀ a, (f a).Follows (turnAllows sessionId) turnNext (fun t' _ => t'.At run .input) t) :
    (p >>= f).Follows (turnAllows sessionId) turnNext (fun t' _ => t'.At run .input) t := by
  refine Program.Follows.bind (Q := fun t' _ => t' = t) (hp.follows fun _ => rfl) ?_ ?_
  · rintro t' a rfl
    exact hf a
  · rintro t' e rfl
    exact h

theorem attemptSummary_silent (body : Json) (attempts : Nat) : Silent (attemptSummary body attempts) := by
  induction attempts with
  | zero => trivial
  | succ attempts ih =>
    refine Silent.ask rfl fun reply => ?_
    rcases reply with _ | _ | _ | (_ | summary)
    · trivial
    · trivial
    · exact ih
    · exact ih
    · trivial

theorem resolveSummaryProvider_silent (inputs : CompactionInputs) :
    Silent (resolveSummaryProvider inputs) := by
  unfold resolveSummaryProvider
  refine iteInduction (fun _ => .ret _) fun _ => Silent.ask rfl fun provider => ?_
  rcases provider with (name | message) | _ <;> trivial

theorem checkRequest_silent (body : Json) : Silent (checkRequest body) := by
  refine Silent.ask rfl fun reply => ?_
  cases reply <;> trivial

theorem summarizeContext_silent (inputs : CompactionInputs) (selected : List MessageProjection) :
    Silent (summarizeContext inputs selected) :=
  (Silent.ofExcept _).bind fun _ => (resolveSummaryProvider_silent _).bind fun _ =>
    (checkRequest_silent _).bind fun _ => attemptSummary_silent _ _

theorem contextBudget_silent (request : RunRequest) : Silent (contextBudget request) := by
  refine Silent.ask rfl fun config => ?_
  cases config with
  | error message => trivial
  | ok config => exact Silent.ask rfl fun _ => Silent.ofExcept _

theorem compactionSummary_follows (inputs : CompactionInputs) (artifactId : String)
    (selected : List MessageProjection) (h : t.At run .input) :
    (compactionSummary sessionId run.runId inputs artifactId selected).Follows
      (turnAllows sessionId) turnNext (fun t' _ => t'.At run .input) t := by
  unfold compactionSummary
  cases inputs.config.context.compaction.strategy with
  | deterministic => exact h
  | llm =>
    refine Asks.follows (summarizeContext_silent inputs selected).attempt fun summary => ?_
    cases summary with
    | ok summary => exact h
    | error e => exact appendContext_follows h rfl fun _ => h

theorem budgetExceeded_follows (artifactId : String) (h : t.At run .input) :
    (budgetExceeded sessionId run.runId artifactId).Follows (turnAllows sessionId) turnNext
      (fun t' _ => t'.At run .input) t :=
  appendContext_follows h rfl fun _ => h

theorem compact_follows (inputs : CompactionInputs) (p : SessionProjection)
    (budget : ResolvedContextBudget) (inputBudget estimate : Nat) (first last : MessageProjection)
    (h : t.At run .input) :
    (compact sessionId run.runId inputs p budget inputBudget estimate first last).Follows
      (turnAllows sessionId) turnNext (fun t' _ => t'.At run .input) t := by
  refine follows_ask trivial fun artifactId => ?_
  refine appendContext_follows h rfl fun _ => ?_
  refine (compactionSummary_follows inputs artifactId _ h).bind ?_ fun t' e h' => h'
  intro t' summary h'
  refine (Silent.ofExcept _).builds h' fun compacted => ?_
  refine iteInduction (fun _ => budgetExceeded_follows artifactId h') fun _ => ?_
  exact appendContext_follows h' rfl fun _ => h'

theorem buildCompactedBody_follows (inputs : CompactionInputs) (h : t.At run .input) :
    (buildCompactedBody sessionId run.runId inputs).Follows (turnAllows sessionId) turnNext
      (fun t' _ => t'.At run .input) t := by
  unfold buildCompactedBody
  refine iteInduction (fun _ => ?_) fun _ => ?_
  · refine appendContext_follows h rfl fun _ => ?_
    exact follows_onStore trivial (fun _ => (Silent.ofExcept _).follows fun _ => h) fun _ => h
  · refine follows_onStore trivial (fun projection => ?_) fun _ => h
    refine (Silent.ofExcept _).builds h fun body => ?_
    refine (contextBudget_silent _).builds h fun budget => ?_
    refine iteInduction (fun _ => h) fun _ => ?_
    refine iteInduction (fun _ => h) fun _ => ?_
    cases projection.selected with
    | nil => exact follows_ask trivial fun artifactId => budgetExceeded_follows artifactId h
    | cons first rest => exact compact_follows inputs projection _ _ _ _ _ h

theorem buildExecution_follows (request : RunRequest) (config : PiqoConfig)
    (provider : ResolvedProvider) (h : t.At run .input) :
    (buildExecution sessionId run request config provider).Follows (turnAllows sessionId) turnNext
      (fun t' _ => t'.At run .input) t := by
  refine follows_onStore trivial (fun session => ?_) fun _ => h
  refine follows_ask trivial fun catalog => ?_
  exact (buildCompactedBody_follows _ h).bind (fun t' body h' => h') fun t' e h' => h'

/-! ## The request -/

/-- The configuration of a first attempt, where no message is open. -/
theorem chooseExecution_follows (request : RunRequest) {earlier : Option RunExecution}
    (h : t.At run writing) (hwriting : writing.userOpen = false) :
    (chooseExecution request earlier).Follows (turnAllows sessionId) turnNext
      (Attempting run writing fun _ chosen => earlier.isSome = chosen.isLeft) t := by
  have hleaves : ∀ error, t.Ends run (.result (.failed error false)) := fun error =>
    h.ends hwriting trivial
  cases earlier with
  | some execution => exact ⟨h, rfl⟩
  | none =>
    refine ⟨trivial, fun config => ?_⟩
    cases config with
    | error message => exact hleaves message
    | ok config =>
      refine ⟨trivial, fun provider => ?_⟩
      cases provider with
      | error e => exact hleaves e.message
      | ok provider => exact ⟨h, rfl⟩

theorem execution_follows (request : RunRequest)
    {chosen : RunExecution ⊕ (PiqoConfig × ResolvedProvider)} {existing : Option String}
    (h : t.At run (afterInput existing)) (hchosen : existing.isSome = chosen.isLeft) :
    (execution sessionId run request chosen).Follows (turnAllows sessionId) turnNext
      (Attempting run (afterInput existing) fun _ _ => True) t := by
  cases chosen with
  | inl execution => exact ⟨h, trivial⟩
  | inr chosen =>
    cases existing with
    | some messageId => cases hchosen
    | none =>
      refine follows_orFail (buildExecution_follows request chosen.1 chosen.2 h)
        (fun t' _ h' => ⟨h', trivial⟩) fun t' e h' => ?_
      refine h'.ends rfl (StoreError.exit_leaves fun _ => .inr ?_)
      rw [h'.writing]
      rfl

theorem checkSize_follows (body : Json) (h : t.At run writing)
    (hwriting : writing.userOpen = false) :
    (checkSize body).Follows (turnAllows sessionId) turnNext
      (Attempting run writing fun _ _ => True) t := by
  refine ⟨trivial, fun config => ?_⟩
  cases config with
  | error message => exact h.ends hwriting trivial
  | ok config => exact iteInduction (fun _ => h.ends hwriting trivial) fun _ => ⟨h, trivial⟩

theorem openAssistantMessage_follows {existing : Option String}
    (h : t.At run (afterInput existing)) :
    (openAssistantMessage sessionId existing).Follows (turnAllows sessionId) turnNext
      (fun t' x => match x with
        | .ok messageId => t'.At run (.assistant messageId)
        | .error x => t'.Ends run x) t := by
  cases existing with
  | some messageId => exact h
  | none =>
    refine ⟨trivial, fun messageId => ?_⟩
    have hrecord : t.record (.messageStarted messageId "assistant" .assistant (.agent "assistant")) =
        some { t with writing := .assistant messageId } := by
      simp [Turn.record, h.writing, afterInput]
    change (orFail (append sessionId _) >>= fun _ => Program.ret messageId).Follows _ _ _ _
    refine Program.Follows.bind (Q := Attempting run (.assistant messageId) fun _ _ => True)
      (follows_orFail (append_follows hrecord) ?_ ?_) (fun t' _ h' => h'.1) fun t' x h' => h'
    · rintro t' record rfl
      exact ⟨⟨⟨h.of.runId, h.of.retryOf, h.of.request⟩, rfl, h.emitted, h.waiting⟩, trivial⟩
    · rintro t' e ⟨faulted, rfl, -, -⟩
      refine (h.faulted faulted).ends rfl (StoreError.exit_leaves fun _ => .inr ?_)
      rw [(h.faulted faulted).writing]
      rfl

theorem buildRequest_follows (body : Json) (h : t.At run writing)
    (hwriting : writing.userOpen = false) :
    (buildRequest body).Follows (turnAllows sessionId) turnNext
      (Attempting run writing fun _ _ => True) t := by
  refine ⟨trivial, fun reply => ?_⟩
  cases reply with
  | error message => exact h.ends hwriting trivial
  | ok _ => exact ⟨h, trivial⟩

/-- Recording that an attempt failed does not fail. -/
theorem recordFailedAttempt_follows (attemptId error : String) (h : t.At run writing) :
    (recordFailedAttempt sessionId run.runId attemptId error).Follows (turnAllows sessionId) turnNext
      (fun t' x => ∃ v, x = .ok v ∧ t'.At run writing) t := by
  have hrecord : t.record (.runAttemptFailed run.runId attemptId error true) = some t :=
    record_attempt (by rw [h.of.runId]; rfl)
  refine Program.Follows.bind_total (P := fun t' _ => t'.At run writing)
    ((append_follows hrecord).mono ?_).attempt fun t' _ h' => ⟨_, rfl, h'⟩
  intro t' x hx
  refine ⟨x, rfl, ?_⟩
  cases x with
  | ok record =>
    cases hx
    exact h
  | error e =>
    obtain ⟨faulted, rfl, -, -⟩ := hx
    exact h.faulted faulted

/-- What sending the request leaves: the turn has heard the response. -/
theorem sendRequest_follows (body : Json) (left : Nat) (attemptId messageId : String)
    (h : t.At run (.assistant messageId)) :
    (sendRequest sessionId run body left attemptId).Follows (turnAllows sessionId) turnNext
      (Attempting run (.assistant messageId) fun t' v =>
        t'.carries = v.1.carriesCall body ∧ t'.clean = v.1.clean body) t := by
  induction left generalizing t attemptId with
  | zero =>
    unfold sendRequest
    refine ⟨⟨h.of.runId.symm, ⟨messageId, h.writing⟩, h.emitted, h.waiting⟩, fun reply => ?_⟩
    have hheard := h.hear body reply
    cases reply with
    | cancelled => exact hheard.ends rfl trivial
    | shutdown => exact hheard.ends rfl trivial
    | failed error => exact hheard.ends rfl trivial
    | response response => exact ⟨hheard, rfl, rfl⟩
  | succ left ih =>
    unfold sendRequest
    refine ⟨⟨h.of.runId.symm, ⟨messageId, h.writing⟩, h.emitted, h.waiting⟩, fun reply => ?_⟩
    have hheard := h.hear body reply
    cases reply with
    | cancelled => exact hheard.ends rfl trivial
    | shutdown => exact hheard.ends rfl trivial
    | response response => exact ⟨hheard, rfl, rfl⟩
    | failed error =>
      refine follows_orFail_total (recordFailedAttempt_follows attemptId error h) fun t' _ h' => ?_
      refine ⟨trivial, fun nextAttemptId => ?_⟩
      refine appendAttempt_follows h' rfl (fun _ => ?_) fun t'' x h'' => h''.ends rfl
      refine ⟨trivial, fun shutdown => ?_⟩
      cases shutdown with
      | true => exact h'.ends rfl trivial
      | false => exact ih nextAttemptId h'

/-- What an attempt leaves. -/
structure Attempted (run : RunProjection) (a : Attempt) (t : Turn) : Prop where
  of : t.Of run
  writing : t.writing = .assistant a.assistantMessageId
  completed : a.state.outcome = .completed → t.clean = true
  action : a.state.outcome = .requiresAction → t.waiting = true
  retry : ∀ e, a.state.outcome = .failed e true → t.emitted = false ∧ t.waiting = false
  outcome : a.state.outcome = .completed ∨ (∃ e retryable, a.state.outcome = .failed e retryable) ∨
    a.state.outcome = .requiresAction

theorem attemptRun_follows {earlier : Option RunExecution} {existing : Option String} (left : Nat)
    (hearlier : earlier.isSome = existing.isSome) (h : t.At run (beforeInput run existing)) :
    (attemptRun sessionId run earlier existing left).Follows (turnAllows sessionId) turnNext
      (fun t' x => match x with
        | .ok a => Attempted run a t'
        | .error x => t'.Ends run x) t := by
  have huser := userOpen_beforeInput run existing
  have huser' := userOpen_afterInput existing
  unfold attemptRun
  cases hrequest : RunRequest.ofJson? run.request with
  | none => exact h.ends huser trivial
  | some request =>
    change (chooseExecution request earlier >>= _).Follows _ _ _ _
    refine (chooseExecution_follows request h huser).bind ?_ fun t' x h' => h'
    rintro t₁ chosen ⟨h₁, hchosen⟩
    refine (startAttempt_follows h₁ huser left).bind ?_ fun t' x h' => h'
    rintro t₂ attemptId ⟨h₂, -⟩
    refine (enterInput_follows hrequest h₂).bind ?_ fun t' x h' => h'
    rintro t₃ _ ⟨h₃, -⟩
    refine (execution_follows request h₃ (hearlier.symm.trans hchosen)).bind ?_ fun t' x h' => h'
    rintro t₄ execution ⟨h₄, -⟩
    refine (checkSize_follows execution.body h₄ huser').bind ?_ fun t' x h' => h'
    rintro t₅ _ ⟨h₅, -⟩
    refine (openAssistantMessage_follows h₅).bind ?_ fun t' x h' => h'
    intro t₆ messageId h₆
    refine (buildRequest_follows execution.body h₆ rfl).bind ?_ fun t' x h' => h'
    rintro t₇ _ ⟨h₇, -⟩
    refine (sendRequest_follows execution.body left attemptId messageId h₇).bind ?_ fun t' x h' => h'
    rintro t₈ ⟨response, attemptId'⟩ ⟨h₈, hcarries, hclean⟩
    refine (readResponse_follows h₈.of.runId h₈.writing hcarries h₈.emitted h₈.waiting).bind ?_ ?_
    · intro t₉ st hread
      have honward := hread.onward
      refine ⟨⟨honward.runId.trans h₈.of.runId, honward.retryOf.trans h₈.of.retryOf,
        honward.request.trans h₈.of.request⟩, honward.writing.trans h₈.writing, ?_, hread.action,
        hread.retry, hread.outcome⟩
      intro hcompleted
      rw [honward.clean, hclean]
      exact hread.completed hcompleted
    · rintro t₉ x ⟨honward, hleaves⟩
      refine ⟨⟨honward.runId.trans h₈.of.runId, honward.retryOf.trans h₈.of.retryOf,
        honward.request.trans h₈.of.request⟩, hleaves, fun huser => ?_⟩
      rw [honward.writing, h₈.writing] at huser
      cases huser

end Attempt

/-! ## A turn -/

/-- What the result of a turn says about it. -/
structure Turn.Reaches (t : Turn) (result : ExecutionResult) : Prop where
  paused : result ≠ .completed
  waiting : result = .requiresAction → t.waiting = true
  completed : ∀ usage, result = .completedWithUsage usage →
    t.clean = true ∧ ∃ messageId, t.writing = .assistant messageId
  user : t.writing.userOpen = true → t.faulted = true ∨ t.late = true

/-- What a turn leaves. -/
def TurnOver (run : RunProjection) (t : Turn) : Except StoreError ExecutionResult → Prop
  | .ok result => t.Of run ∧ t.Reaches result
  | .error _ => t.Of run ∧ (t.faulted = true ∨ t.writing.open? = none)

section Turn

variable {sessionId : String} {run : RunProjection} {t : Turn}

theorem Turn.Reaches.of_ends {result : ExecutionResult} (h : t.Ends run (.result result)) :
    t.Reaches result := by
  refine ⟨?_, ?_, ?_, fun huser => .inl (h.user huser)⟩
  · rintro rfl
    exact h.leaves
  · rintro rfl
    exact absurd h.leaves id
  · rintro usage rfl
    exact absurd h.leaves id

/-- A run that fails, is cancelled or interrupted at the message of the assistant. -/
theorem Turn.Reaches.of_leaves {result : ExecutionResult} (hleaves : (TurnExit.result result).Leaves t)
    (huser : t.writing.userOpen = false) : t.Reaches result := by
  refine ⟨?_, ?_, ?_, fun h => by rw [huser] at h; cases h⟩
  · rintro rfl
    exact hleaves
  · rintro rfl
    exact absurd hleaves id
  · rintro usage rfl
    exact absurd hleaves id

theorem Attempted.userOpen {a : Attempt} (h : Attempted run a t) : t.writing.userOpen = false := by
  rw [h.writing]
  rfl

/-- A response that is read to its end completes the run. -/
theorem Attempted.completes {a : Attempt} (h : Attempted run a t)
    (houtcome : a.state.outcome = .completed) (usage : Option Json) :
    t.Reaches (.completedWithUsage usage) := by
  refine ⟨nofun, nofun, fun _ _ => ⟨h.completed houtcome, _, h.writing⟩, fun huser => ?_⟩
  rw [h.userOpen] at huser
  cases huser

/-- A run that waits for results has recorded so. -/
theorem Attempted.waits {a : Attempt} (h : Attempted run a t)
    (houtcome : a.state.outcome = .requiresAction) : t.Reaches .requiresAction := by
  refine ⟨nofun, fun _ => h.action houtcome, nofun, fun huser => ?_⟩
  rw [h.userOpen] at huser
  cases huser

/-- The next attempt starts at the message of the last one. -/
theorem Attempted.again {a : Attempt} (h : Attempted run a t) {error : String}
    (houtcome : a.state.outcome = .failed error true) :
    t.At run (beforeInput run (some a.assistantMessageId)) :=
  ⟨h.of, h.writing, (h.retry error houtcome).1, (h.retry error houtcome).2⟩

theorem executeAttempts_follows (left : Nat) {earlier : Option RunExecution}
    {existing : Option String} (hearlier : earlier.isSome = existing.isSome)
    (h : t.At run (beforeInput run existing)) :
    (executeAttempts sessionId run earlier existing left).Follows (turnAllows sessionId) turnNext
      (fun t' x => match x with
        | .ok result => t'.Of run ∧ t'.Reaches result
        | .error x => t'.Ends run x) t := by
  induction left generalizing t earlier existing with
  | zero =>
    unfold executeAttempts
    refine (attemptRun_follows 0 hearlier h).bind ?_ fun t' x h' => h'
    intro t' a h'
    have hleaves : ∀ {result}, (TurnExit.result result).Leaves t' →
        t'.Of run ∧ t'.Reaches result := fun hleaves => ⟨h'.of, .of_leaves hleaves h'.userOpen⟩
    rcases h'.outcome with houtcome | ⟨e, retryable, houtcome⟩ | houtcome
    · rw [houtcome]
      exact ⟨h'.of, h'.completes houtcome _⟩
    · rw [houtcome]
      cases retryable with
      | false => exact hleaves trivial
      | true =>
        refine ⟨trivial, fun shutdown => ?_⟩
        cases shutdown <;> exact hleaves trivial
    · rw [houtcome]
      exact ⟨h'.of, h'.waits houtcome⟩
  | succ left ih =>
    unfold executeAttempts
    refine (attemptRun_follows (left + 1) hearlier h).bind ?_ fun t' x h' => h'
    intro t' a h'
    have hleaves : ∀ {result}, (TurnExit.result result).Leaves t' →
        t'.Of run ∧ t'.Reaches result := fun hleaves => ⟨h'.of, .of_leaves hleaves h'.userOpen⟩
    rcases h'.outcome with houtcome | ⟨e, retryable, houtcome⟩ | houtcome
    · rw [houtcome]
      exact ⟨h'.of, h'.completes houtcome _⟩
    · rw [houtcome]
      cases retryable with
      | false => exact hleaves trivial
      | true =>
        refine ⟨trivial, fun shutdown => ?_⟩
        cases shutdown with
        | true => exact hleaves trivial
        | false =>
          refine follows_orFail_total (recordFailedAttempt_follows a.attemptId e
            (h'.again houtcome)) fun t'' _ h'' => ?_
          refine ⟨trivial, fun shutdown => ?_⟩
          cases shutdown with
          | true => exact ⟨h''.of, .of_leaves trivial (congrArg Writing.userOpen h''.writing)⟩
          | false => exact ih rfl h''
    · rw [houtcome]
      exact ⟨h'.of, h'.waits houtcome⟩

/-- **Executing a run follows the protocol of a turn.** -/
theorem executeRun_follows (run : RunProjection) :
    (executeRun sessionId run).Follows (turnAllows sessionId) turnNext (TurnOver run)
      (.start run) := by
  have hstart : (Turn.start run).At run (beforeInput run none) := ⟨⟨rfl, rfl, rfl⟩, rfl, rfl, rfl⟩
  refine (executeAttempts_follows maxRetries rfl hstart).recover (fun t' result h => h) ?_
  intro t' x h
  cases x with
  | result result => exact ⟨h.of, .of_ends h⟩
  | panicked => exact ⟨h.of, h.leaves⟩

theorem Turn.Records.of {t' : Turn} {e : SemanticEvent} (h : t.Records e t') (hof : t.Of run) :
    t'.Of run := by
  cases h <;> exact ⟨hof.runId, hof.retryOf, hof.request⟩

theorem turnNext_of {op : ServerOp} (hof : t.Of run) (r : op.Reply) : (turnNext t op r).Of run := by
  unfold turnNext
  split
  · next e r =>
    unfold Turn.afterAppend
    split
    · cases hrecord : t.record e with
      | none => exact hof
      | some t' => exact (Turn.records_of_record hrecord).of hof
    · exact ⟨hof.runId, hof.retryOf, hof.request⟩
    · exact ⟨hof.runId, hof.retryOf, hof.request⟩
  · next body r => cases r <;> exact ⟨hof.runId, hof.retryOf, hof.request⟩
  · exact ⟨hof.runId, hof.retryOf, hof.request⟩
  · exact hof

/-- A turn may be given up before any of its operations. -/
theorem withTimeout_follows {α : Type} {p : ServerProgram α}
    {Q : Turn → Except StoreError α → Prop} (h : p.Follows (turnAllows sessionId) turnNext Q t)
    (hof : t.Of run) :
    (withTimeout p).Follows (turnAllows sessionId) turnNext (fun t' x => match x with
      | .ok (some a) => Q t' (.ok a)
      | .ok none => t'.Of run ∧ t'.late = true
      | .error e => Q t' (.error e)) t := by
  induction p generalizing t with
  | ret a => exact h
  | fail e => exact h
  | call op k ih =>
    refine ⟨trivial, fun late => ?_⟩
    cases late with
    | true => exact ⟨⟨hof.runId, hof.retryOf, hof.request⟩, Bool.or_true _⟩
    | false =>
      have hsame : turnNext t (.external .timedOut) false = t := by
        simp [turnNext]
      rw [hsame]
      exact ⟨h.1, fun r => ih r (h.2 r) (turnNext_of hof r)⟩

theorem childBudget_silent (sessionId : String) : Silent (childBudget sessionId) :=
  Silent.onStore rfl fun _ => .ret _

/-- So does executing it with the time a child has. -/
theorem executeRunWithChildTimeout_follows (run : RunProjection) :
    (executeRunWithChildTimeout sessionId run).Follows (turnAllows sessionId) turnNext
      (TurnOver run) (.start run) := by
  have hof : (Turn.start run).Of run := ⟨rfl, rfl, rfl⟩
  refine Asks.follows (childBudget_silent sessionId).attempt fun budget => ?_
  rcases budget with e | (_ | budget)
  · refine ⟨hof, .of_leaves trivial ?_⟩
    exact userOpen_beforeInput run none
  · exact executeRun_follows run
  · refine (withTimeout_follows (executeRun_follows run) hof).bind ?_ fun t' e h => h
    intro t' result h
    cases result with
    | some result => exact h
    | none =>
      refine ⟨trivial, fun _ => ⟨h.1, nofun, nofun, nofun, fun _ => .inr h.2⟩⟩

end Turn

end Piqo
