import PiqoServer.Server.Worker

/-!
# What a turn records

Executing a run is a long program with many ways out. What it may do is said once, as a protocol:
the user's message is opened, filled and completed; then a message of the assistant is opened, a
request is sent, and text and calls go to this message. A request is sent again only while no call
has been recorded.

## Main definitions

* `ProviderResponse.carriesCall`, `ProviderResponse.clean`: what a response says
* `Turn`: how far a turn has come
* `Turn.record`, `Turn.Records`: the events a turn may append
* `turnAllows`, `turnNext`: the protocol of a turn
* `Silent`, `Asks`: programs to which no turn pays attention

## Main results

* `Turn.records_of_record`: the cases of `Turn.record`
* `follows_append`: the rule of an append
-/

namespace Piqo

/-! ## Responses -/

/-- A piece of a tool call. -/
def ProviderDelta.isCall : ProviderDelta → Bool
  | .toolCall _ _ _ | .toolCallDelta _ _ _ _ => true
  | _ => false

/-- The pieces of a frame. -/
def frameDeltas : Except String (List ProviderDelta) → List ProviderDelta
  | .ok deltas => deltas
  | .error _ => []

/-- The pieces of an item of a stream. -/
def StreamItem.deltas : StreamItem → List ProviderDelta
  | .chunk frames => frames.flatMap frameDeltas
  | _ => []

/-- A frame that is read to its end and leaves the run going. -/
def cleanFrame : Except String (List ProviderDelta) → Bool
  | .ok deltas => !deltas.contains .requiresAction
  | .error _ => false

/-- So does an item of a stream. -/
def StreamItem.clean : StreamItem → Bool
  | .tick => true
  | .chunk frames => frames.all cleanFrame
  | .cancelled | .shutdown | .broken _ => false

/-- The pieces of a response that is read as a whole. -/
def TextReply.deltas : TextReply → List ProviderDelta
  | .text (.ok deltas) => deltas
  | _ => []

/-- A piece after which nothing more is read of a response as a whole. -/
def ProviderDelta.stops : ProviderDelta → Bool
  | .requiresAction | .toolCallDelta _ _ _ _ => true
  | _ => false

/-- A response as a whole that is read to its end and leaves the run going. -/
def TextReply.clean : TextReply → Bool
  | .text (.ok deltas) => !deltas.any ProviderDelta.stops
  | _ => false

namespace ProviderResponse

/-- Whether there is a tool call in the response, as the body has it read. -/
def carriesCall (response : ProviderResponse) (body : Json) : Bool :=
  if bodyStreamMode body then (response.stream.flatMap StreamItem.deltas).any ProviderDelta.isCall
  else response.text.deltas.any ProviderDelta.isCall

/-- Whether the response is read to its end and leaves the run going; a stream says itself that it
is complete. -/
def clean (response : ProviderResponse) (body : Json) : Bool :=
  response.success &&
    if bodyStreamMode body then
      response.stream.all StreamItem.clean &&
        (response.stream.flatMap StreamItem.deltas).contains .completed
    else response.text.clean

end ProviderResponse

/-! ## Turns -/

/-- The message a turn is at. -/
inductive Writing where
  /-- The user's message is to be written. -/
  | nothing
  | user (messageId : String) (filled : Bool)
  /-- The user's message is there. -/
  | input
  | assistant (messageId : String)
  deriving DecidableEq

/-- The message that is open. -/
def Writing.open? : Writing → Option String
  | .user messageId _ | .assistant messageId => some messageId
  | .nothing | .input => none

/-- Whether the user's message is open. -/
def Writing.userOpen : Writing → Bool
  | .user _ _ => true
  | _ => false

/-- How far a turn has come. -/
structure Turn where
  runId : String
  retryOf : Option String
  request : Json
  writing : Writing
  /-- The last response carries a call. -/
  carries : Bool := false
  /-- The last response is read to its end and leaves the run going. -/
  clean : Bool := false
  /-- A call has been recorded. -/
  emitted : Bool := false
  /-- The run waits for results. -/
  waiting : Bool := false
  /-- The time of the child is over. -/
  late : Bool := false
  /-- An event was refused that cannot be refused while the session is the turn's own. -/
  faulted : Bool := false

namespace Turn

/-- A turn at a run that has just been started; the user's message of a retry is there. -/
def start (run : RunProjection) : Turn where
  runId := run.runId
  retryOf := run.retryOf
  request := run.request
  writing := if run.retryOf = none then .nothing else .input

/-- The content of the user's message. -/
def input? (t : Turn) : Option ContentBlock := (RunRequest.ofJson? t.request).map (·.inputBlock)

end Turn

/-- Events of the attempts at a run. -/
def SemanticEvent.attemptOf? : SemanticEvent → Option String
  | .runAttemptStarted runId _ _ | .runAttemptFailed runId _ _ _ => some runId
  | _ => none

/-- Events about the context of a run. -/
def SemanticEvent.contextOf? : SemanticEvent → Option String
  | .contextCompactionStarted runId _ _ _ _ | .contextCompacted runId _
  | .contextCompactionFailed runId _ _ | .contextCompactionBypassed runId _ => some runId
  | _ => none

/-- The turn after an event is recorded, if it may append it. -/
def Turn.record (t : Turn) : SemanticEvent → Option Turn
  | .messageStarted messageId _ role _ =>
    match t.writing, role with
    | .nothing, .user => some { t with writing := .user messageId false }
    | .input, .assistant => some { t with writing := .assistant messageId }
    | _, _ => none
  | .messageContentAppended messageId block =>
    match t.writing with
    | .user messageId' false =>
      if messageId = messageId' ∧ some block = t.input? then
        some { t with writing := .user messageId true }
      else none
    | .assistant messageId' => if messageId = messageId' then some t else none
    | _ => none
  | .messageCompleted messageId =>
    match t.writing with
    | .user messageId' true =>
      if messageId = messageId' then some { t with writing := .input } else none
    | _ => none
  | .toolCallEmitted runId assistantMessageId _ _ _ _ _ _ =>
    if runId = t.runId ∧ t.writing = .assistant assistantMessageId ∧ t.carries = true then
      some { t with emitted := true }
    else none
  | .runRequiresAction runId _ =>
    if runId = t.runId ∧ t.writing.open?.isSome ∧ t.writing.userOpen = false then
      some { t with waiting := true }
    else none
  | e =>
    if e.attemptOf? = some t.runId ∨ e.contextOf? = some t.runId ∧ t.writing = .input then some t
    else none

/-- The events a turn may append, and the turn after them. -/
inductive Turn.Records (t : Turn) : SemanticEvent → Turn → Prop
  | attempt {e} (he : e.attemptOf? = some t.runId) : t.Records e t
  | context {e} (he : e.contextOf? = some t.runId) (hwriting : t.writing = .input) : t.Records e t
  | userStarted (messageId agentId : String) (author : MessageAuthor)
      (hwriting : t.writing = .nothing) :
    t.Records (.messageStarted messageId agentId .user author)
      { t with writing := .user messageId false }
  | userFilled (messageId : String) (block : ContentBlock)
      (hwriting : t.writing = .user messageId false) (hblock : t.input? = some block) :
    t.Records (.messageContentAppended messageId block)
      { t with writing := .user messageId true }
  | userCompleted (messageId : String) (hwriting : t.writing = .user messageId true) :
    t.Records (.messageCompleted messageId) { t with writing := .input }
  | assistantStarted (messageId agentId : String) (author : MessageAuthor)
      (hwriting : t.writing = .input) :
    t.Records (.messageStarted messageId agentId .assistant author)
      { t with writing := .assistant messageId }
  | content (messageId : String) (block : ContentBlock)
      (hwriting : t.writing = .assistant messageId) :
    t.Records (.messageContentAppended messageId block) t
  | emitted (messageId callId agentId toolName : String) (arguments : Json) (rawArguments : String)
      (native : Bool) (hwriting : t.writing = .assistant messageId) (hcarries : t.carries = true) :
    t.Records (.toolCallEmitted t.runId messageId callId agentId toolName arguments rawArguments
      native) { t with emitted := true }
  | waiting (messageId : String) (callIds : List String)
      (hwriting : t.writing = .assistant messageId) :
    t.Records (.runRequiresAction t.runId callIds) { t with waiting := true }

theorem Turn.records_of_record {t t' : Turn} {e : SemanticEvent} (h : t.record e = some t') :
    t.Records e t' := by
  cases e <;> simp only [Turn.record, Option.ite_none_right_eq_some, Option.some.injEq] at h
  case messageStarted messageId agentId role author =>
    split at h
    · next hwriting =>
      cases h
      exact .userStarted _ _ _ hwriting
    · next hwriting =>
      cases h
      exact .assistantStarted _ _ _ hwriting
    · cases h
  case messageContentAppended messageId block =>
    split at h
    · next hwriting =>
      obtain ⟨⟨rfl, hblock⟩, heq⟩ := Option.ite_none_right_eq_some.mp h
      cases heq
      exact .userFilled _ _ hwriting hblock.symm
    · next hwriting =>
      obtain ⟨rfl, heq⟩ := Option.ite_none_right_eq_some.mp h
      cases heq
      exact .content _ _ hwriting
    · cases h
  case messageCompleted messageId =>
    split at h
    · next hwriting =>
      obtain ⟨rfl, heq⟩ := Option.ite_none_right_eq_some.mp h
      cases heq
      exact .userCompleted _ hwriting
    · cases h
  case toolCallEmitted =>
    obtain ⟨⟨rfl, hwriting, hcarries⟩, rfl⟩ := h
    exact .emitted _ _ _ _ _ _ _ hwriting hcarries
  case runRequiresAction =>
    obtain ⟨⟨rfl, hopen, huser⟩, rfl⟩ := h
    rcases hwriting : t.writing with _ | _ | _ | messageId
    · simp [hwriting, Writing.open?] at hopen
    · simp [hwriting, Writing.userOpen] at huser
    · simp [hwriting, Writing.open?] at hopen
    · rw [← hwriting]
      exact .waiting messageId _ hwriting
  all_goals
    obtain ⟨he, rfl⟩ := h
    rcases he with he | ⟨he, hwriting⟩
    · exact .attempt he
    · exact .context he hwriting

/-- The events that an open message accepts. -/
def SemanticEvent.sure : SemanticEvent → Bool
  | .messageContentAppended _ _ | .messageCompleted _ => true
  | _ => false

def StoreError.isPanic : StoreError → Bool
  | .panicked => true
  | _ => false

/-- The turn after the reply to an append. -/
def Turn.afterAppend (t : Turn) (e : SemanticEvent) :
    Except StoreError (List RecordedEvent) → Turn
  | .ok (_ :: _) => (t.record e).getD t
  | .ok [] => { t with faulted := true }
  | .error x => { t with faulted := t.faulted || e.sure || x.isPanic }

/-- The turn after the reply of a provider. -/
def Turn.hear (t : Turn) (body : Json) : SendReply → Turn
  | .response response =>
    { t with carries := response.carriesCall body, clean := response.clean body }
  | _ => t

/-- The operations of a turn. -/
def turnAllows (sessionId : String) (t : Turn) : ServerOp → Prop
  | .store (.append id events) => id = sessionId ∧ ∃ e t', events = [e] ∧ t.record e = some t'
  | .store (.projection _) | .store (.getSession _) | .store (.agentLinks _) => True
  | .store _ => False
  | .publish _ | .startWorker _ => True
  | .external op => match op with
    | .beginEffect _ _ | .registerToken _ | .removeToken _ | .acquireActive => False
    | .send runId _ => runId = t.runId ∧ (∃ messageId, t.writing = .assistant messageId) ∧
        t.emitted = false ∧ t.waiting = false
    | _ => True

/-- What the replies say about the turn. -/
def turnNext (t : Turn) : (op : ServerOp) → op.Reply → Turn
  | .store (.append _ [e]), r => t.afterAppend e r
  | .external (.send _ body), r => t.hear body r
  | .external .timedOut, late => { t with late := t.late || late }
  | _, _ => t

/-! ## The rules of the protocol -/

section Rules

variable {sessionId : String} {ε α β : Type} {t t' : Turn}

theorem turn_quiet (sessionId : String) : Quiet (turnAllows sessionId) turnNext where
  publish _ _ := ⟨trivial, rfl⟩
  worker _ _ := ⟨trivial, rfl⟩
  release _ _ := ⟨trivial, rfl⟩
  shutdown _ _ := ⟨trivial, rfl⟩

/-- What an append leaves: an event that is refused may leave a fault behind. -/
def Appended (t : Turn) (e : SemanticEvent) (t' b : Turn) : Except StoreError RecordedEvent → Prop
  | .ok _ => b = t'
  | .error x => ∃ faulted, b = { t with faulted } ∧ (e.sure = true → faulted = true) ∧
      (x = .panicked → faulted = true)

theorem append_follows {e : SemanticEvent} (hrecord : t.record e = some t') :
    (append sessionId e).Follows (turnAllows sessionId) turnNext (Appended t e t') t := by
  refine follows_onStore ⟨rfl, e, t', rfl, hrecord⟩ ?_ ?_
  · intro records
    cases records with
    | nil => exact ⟨true, rfl, fun _ => rfl, fun _ => rfl⟩
    | cons record records =>
      refine (turn_quiet sessionId).publishAll_then [record] ?_
      change turnNext t (.store (.append sessionId [e])) (.ok (record :: records)) = t'
      rw [turnNext, Turn.afterAppend, hrecord]
      rfl
  · intro x
    refine ⟨_, rfl, ?_, ?_⟩
    · intro hsure
      rw [hsure, Bool.or_true, Bool.true_or]
    · rintro rfl
      exact Bool.or_true _

/-- An append, and what follows it. -/
theorem follows_append {e : SemanticEvent} (hrecord : t.record e = some t')
    {f : RecordedEvent → ServerProgram β} {Q : Turn → Except StoreError β → Prop}
    (hok : ∀ record, (f record).Follows (turnAllows sessionId) turnNext Q t')
    (herror : ∀ x faulted, (e.sure = true → faulted = true) → (x = .panicked → faulted = true) →
      Q { t with faulted } (.error x)) :
    (append sessionId e >>= f).Follows (turnAllows sessionId) turnNext Q t := by
  refine (append_follows hrecord).bind ?_ ?_
  · rintro b record rfl
    exact hok record
  · rintro b x ⟨faulted, rfl, hsure, hpanic⟩
    exact herror x faulted hsure hpanic

/-- Operations to which no turn pays attention. -/
def ServerOp.silent : ServerOp → Bool
  | .store (.projection _) | .store (.getSession _) | .store (.agentLinks _) => true
  | .store _ | .publish _ | .startWorker _ => false
  | .external op => match op with
    | .beginEffect _ _ | .registerToken _ | .removeToken _ | .acquireActive | .send _ _
    | .timedOut => false
    | _ => true

/-- A program that calls nothing else. -/
def Silent (p : Program serverSignature ε α) : Prop :=
  p.Follows (fun (_ : Unit) (op : ServerOp) => op.silent = true) (fun a _ _ => a) (fun _ _ => True) ()

theorem Silent.ret (a : α) : Silent (.ret a : Program serverSignature ε α) := trivial

theorem Silent.fail (e : ε) : Silent (.fail e : Program serverSignature ε α) := trivial

theorem Silent.ask {op : ExternalOp} (hop : (ServerOp.external op).silent = true)
    {f : op.Reply → ServerProgram β} (hf : ∀ r, Silent (f r)) : Silent (Piqo.ask op >>= f) :=
  ⟨hop, hf⟩

theorem Silent.onStore {op : StoreOp} (hop : (ServerOp.store op).silent = true)
    {f : op.Result → ServerProgram β} (hf : ∀ v, Silent (f v)) : Silent (Piqo.onStore op >>= f) :=
  follows_onStore hop hf fun _ => trivial

theorem Silent.bind {p : Program serverSignature ε α} {f : α → Program serverSignature ε β}
    (hp : Silent p) (hf : ∀ a, Silent (f a)) : Silent (p >>= f) :=
  Program.Follows.bind hp (fun _ a _ => hf a) fun _ _ _ => trivial

theorem Silent.ofExcept (x : Except ε α) : Silent (.ofExcept x : Program serverSignature ε α) := by
  cases x <;> trivial

theorem Silent.expect (e : StoreError) (x : Option α) : Silent (Piqo.expect e x) := by
  cases x <;> trivial

/-- A silent program that does not fail. -/
def Asks (p : Program serverSignature ε α) : Prop :=
  p.Follows (fun (_ : Unit) (op : ServerOp) => op.silent = true) (fun a _ _ => a)
    (fun _ x => ∃ v, x = .ok v) ()

theorem Silent.attempt {p : ServerProgram α} (hp : Silent p) : Asks p.attempt :=
  Program.Follows.attempt (Program.Follows.mono hp fun _ x _ => ⟨x, rfl⟩)

theorem Asks.bind {p : ServerProgram α} (hp : Asks p) {f : α → ServerProgram β}
    (hf : ∀ v, Asks (f v)) : Asks (p >>= f) := by
  refine Program.Follows.bind hp (fun _ v _ => hf v) ?_
  rintro _ e ⟨v, hv⟩
  cases hv

/-- A silent program leaves a turn as it is. -/
theorem follows_of_silent {P : Except ε α → Prop} {p : Program serverSignature ε α}
    (hp : p.Follows (fun (_ : Unit) (op : ServerOp) => op.silent = true) (fun a _ _ => a)
      (fun _ x => P x) ()) {Q : Turn → Except ε α → Prop} (hQ : ∀ x, P x → Q t x) :
    p.Follows (turnAllows sessionId) turnNext Q t := by
  refine (hp.invariant (J := (· = t)) ?_ rfl).mono ?_
  · rintro _ op rfl hop
    rcases op with op | _ | _ | op
    · cases op <;> first | exact ⟨trivial, fun _ => rfl⟩ | cases hop
    · cases hop
    · cases hop
    · cases op <;> first | exact ⟨trivial, fun _ => rfl⟩ | cases hop
  · rintro t' x ⟨rfl, hx⟩
    exact hQ x hx

theorem Silent.follows {p : Program serverSignature ε α} (hp : Silent p)
    {Q : Turn → Except ε α → Prop} (hQ : ∀ x, Q t x) :
    p.Follows (turnAllows sessionId) turnNext Q t :=
  follows_of_silent (P := fun _ => True) hp fun x _ => hQ x

/-- What follows a program that does not fail. -/
theorem Asks.follows {p : Program serverSignature ε α} (hp : Asks p)
    {f : α → Program serverSignature ε β} {Q : Turn → Except ε β → Prop}
    (hf : ∀ v, (f v).Follows (turnAllows sessionId) turnNext Q t) :
    (p >>= f).Follows (turnAllows sessionId) turnNext Q t := by
  refine Program.Follows.bind (Q := fun t' x => t' = t ∧ ∃ v, x = .ok v) ?_ ?_ ?_
  · exact follows_of_silent (P := fun x => ∃ v, x = .ok v) hp fun x hx => ⟨rfl, hx⟩
  · rintro b v ⟨rfl, -⟩
    exact hf v
  · rintro b e ⟨-, v, hv⟩
    cases hv

/-- What fails a run. -/
theorem follows_orFail {p : ServerProgram α} {P : Turn → Except StoreError α → Prop}
    {Q : Turn → Except TurnExit α → Prop} (h : p.Follows (turnAllows sessionId) turnNext P t)
    (hok : ∀ t' a, P t' (.ok a) → Q t' (.ok a))
    (herror : ∀ t' e, P t' (.error e) → Q t' (.error (e.exit false))) :
    (orFail p).Follows (turnAllows sessionId) turnNext Q t :=
  Program.Follows.recover h hok herror

/-- What cannot fail a run, and what follows it. -/
theorem follows_orFail_total {p : ServerProgram α} {f : α → TurnProgram β} {P : Turn → α → Prop}
    {Q : Turn → Except TurnExit β → Prop}
    (h : p.Follows (turnAllows sessionId) turnNext (fun t' x => ∃ v, x = .ok v ∧ P t' v) t)
    (hok : ∀ t' v, P t' v → (f v).Follows (turnAllows sessionId) turnNext Q t') :
    (orFail p >>= f).Follows (turnAllows sessionId) turnNext Q t := by
  refine Program.Follows.bind_total (P := P) (follows_orFail h ?_ ?_) hok
  · rintro t' a ⟨v, hv, hP⟩
    cases hv
    exact ⟨a, rfl, hP⟩
  · rintro t' e ⟨v, hv, -⟩
    cases hv

end Rules

end Piqo
