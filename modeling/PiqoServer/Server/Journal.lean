import PiqoServer.Server.Execution
import PiqoServer.Server.Runs

/-!
# The journal of an execution

What the execution of a run receives and records, noted along its operations: the responses, the
message of the assistant, its text and its tool calls, and whether an append failed. Most parts of
an execution bring nothing of a response.

## Main definitions

* `Journal`, `journalNext`: what an execution has received and recorded
* `Leaves`: what holds of the journal and the outcome at the end of a program
* `Aside`: programs that bring nothing of a response

## Main results

* `leaves_append`: appending
* `Aside.followed`, `Asks.leaves`: what follows a program that brings nothing of a response
* `buildExecution_aside`, `enterInput_aside` and the like: one lemma per function
-/

namespace Piqo

/-! ## The journal -/

/-- A call of a tool as it is recorded. -/
structure EmittedCall where
  callId : String
  toolName : String
  rawArguments : String
  deriving DecidableEq, Repr

/-- What an execution of a run has received and recorded. -/
structure Journal where
  /-- The message of the assistant. -/
  message : Option String := none
  /-- The text blocks of that message, joined. -/
  text : String := ""
  calls : List EmittedCall := []
  /-- The responses, each with the body it answers. -/
  responses : List (Json × ProviderResponse) := []
  /-- The random ids. -/
  drawn : List String := []
  /-- An append failed. -/
  faulted : Bool := false

namespace Journal

def event (j : Journal) : SemanticEvent → Journal
  | .messageStarted messageId _ .assistant _ => { j with message := some messageId }
  | .messageContentAppended messageId (.text text) =>
    if j.message = some messageId then { j with text := j.text ++ text } else j
  | .toolCallEmitted _ _ callId _ toolName _ rawArguments _ =>
    { j with calls := j.calls ++ [⟨callId, toolName, rawArguments⟩] }
  | _ => j

/-- Events that were appended, or could not be. -/
def append (j : Journal) (events : List SemanticEvent) :
    Except StoreError (List RecordedEvent) → Journal
  | .ok (_ :: _) => events.foldl event j
  | .ok [] | .error _ => { events.foldl event j with faulted := true }

def hear (j : Journal) (body : Json) : SendReply → Journal
  | .response response => { j with responses := j.responses ++ [(body, response)] }
  | _ => j

end Journal

def journalNext (j : Journal) : (op : ServerOp) → op.Reply → Journal
  | .store (.append _ events), r => j.append events r
  | .external (.send _ body), r => j.hear body r
  | .external .newUuid, id => { j with drawn := j.drawn ++ [id] }
  | _, _ => j

/-- What holds of the journal and the outcome at the end of a program, whatever is replied. -/
abbrev Leaves {ε α : Type} (j : Journal) (p : Program serverSignature ε α)
    (Q : Journal → Except ε α → Prop) : Prop :=
  p.Follows (fun _ _ => True) journalNext Q j

theorem journal_quiet : Quiet (fun (_ : Journal) _ => True) journalNext where
  publish _ _ := ⟨trivial, rfl⟩
  worker _ _ := ⟨trivial, rfl⟩
  release _ _ := ⟨trivial, rfl⟩
  shutdown _ _ := ⟨trivial, rfl⟩

/-- An append, and what follows it. -/
theorem leaves_append {β : Type} {j : Journal} {sessionId : String} {e : SemanticEvent}
    {f : RecordedEvent → ServerProgram β} {Q : Journal → Except StoreError β → Prop}
    (hok : ∀ record, Leaves (j.event e) (f record) Q)
    (herror : ∀ x, Q { j.event e with faulted := true } (.error x)) :
    Leaves j (append sessionId e >>= f) Q := by
  refine Program.Follows.bind (Q := fun j' x => (∀ record, x = .ok record → j' = j.event e) ∧
    ∀ e', x = .error e' → j' = { j.event e with faulted := true }) ?_ ?_ ?_
  · refine follows_onStore trivial (fun records => ?_) fun x => ⟨by simp, fun _ _ => rfl⟩
    cases records with
    | nil => exact ⟨by simp, fun _ _ => rfl⟩
    | cons record records => exact journal_quiet.publishAll_then [record] ⟨fun _ _ => rfl, by simp⟩
  · rintro j' record ⟨hj', -⟩
    rw [hj' record rfl]
    exact hok record
  · rintro j' x ⟨-, hj'⟩
    rw [hj' x rfl]
    exact herror x

/-! ## Operations aside -/

/-- An event that says nothing about the message of the assistant; before that message is there,
content belongs to another one. -/
def SemanticEvent.aside (message : Option String) : SemanticEvent → Bool
  | .messageStarted _ _ role _ => role != .assistant
  | .messageContentAppended _ _ => message.isNone
  | .toolCallEmitted .. => false
  | _ => true

/-- An operation that brings nothing of a response. -/
def ServerOp.aside (message : Option String) : ServerOp → Bool
  | .store (.append _ events) => events.all (·.aside message)
  | .external (.send _ _) => false
  | _ => true

/-- Nothing has been received or recorded in between. -/
structure Journal.Aside (j j' : Journal) : Prop where
  message : j'.message = j.message
  text : j'.text = j.text
  calls : j'.calls = j.calls
  responses : j'.responses = j.responses
  drawn : j.drawn <+: j'.drawn
  faulted : j.faulted = true → j'.faulted = true

theorem Journal.Aside.refl (j : Journal) : j.Aside j := ⟨rfl, rfl, rfl, rfl, List.prefix_rfl, id⟩

theorem Journal.Aside.trans {j j' j'' : Journal} (h : j.Aside j') (h' : j'.Aside j'') :
    j.Aside j'' where
  message := h'.message.trans h.message
  text := h'.text.trans h.text
  calls := h'.calls.trans h.calls
  responses := h'.responses.trans h.responses
  drawn := h.drawn.trans h'.drawn
  faulted hfaulted := h'.faulted (h.faulted hfaulted)

theorem SemanticEvent.event_of_aside {j : Journal} {e : SemanticEvent}
    (h : e.aside j.message = true) : j.event e = j := by
  cases e <;> first | rfl | cases h | skip
  case messageStarted messageId agentId role author =>
    cases role <;> first | rfl | cases h
  case messageContentAppended messageId block =>
    have hmessage : j.message = none := by simpa [SemanticEvent.aside] using h
    cases block with
    | text text => exact if_neg (by simp [hmessage])
    | json value => rfl

theorem Journal.foldl_of_aside {j : Journal} {events : List SemanticEvent}
    (h : events.all (·.aside j.message) = true) : events.foldl Journal.event j = j := by
  induction events with
  | nil => rfl
  | cons e events ih =>
    rw [List.all_cons, Bool.and_eq_true] at h
    rw [List.foldl_cons, SemanticEvent.event_of_aside h.1]
    exact ih h.2

theorem Journal.drawn_next (j : Journal) (id : String) :
    j.Aside (journalNext j (.external .newUuid) id) :=
  ⟨rfl, rfl, rfl, rfl, List.prefix_append _ _, fun h => h⟩

theorem Journal.aside_next {j : Journal} {op : ServerOp} (hop : op.aside j.message = true)
    (r : op.Reply) : j.Aside (journalNext j op r) := by
  rcases op with op | _ | _ | op
  · cases op <;> try exact .refl j
    case append sessionId events =>
      have hfold := foldl_of_aside hop
      have hfault : j.Aside { j with faulted := true } :=
        ⟨rfl, rfl, rfl, rfl, List.prefix_rfl, fun _ => rfl⟩
      rcases r with x | (_ | ⟨record, records⟩)
      · rw [journalNext, append, hfold]
        exact hfault
      · rw [journalNext, append, hfold]
        exact hfault
      · rw [journalNext, append, hfold]
        exact .refl j
  · exact .refl j
  · exact .refl j
  · cases op <;> first | exact .refl j | exact drawn_next j r | cases hop

/-- A program that brings nothing of a response. -/
def Aside {ε α : Type} (message : Option String) (p : Program serverSignature ε α) : Prop :=
  p.Only fun op : ServerOp => op.aside message = true

theorem Aside.leaves {ε α : Type} {p : Program serverSignature ε α} {j : Journal}
    (h : Aside j.message p) : Leaves j p fun j' _ => j.Aside j' := by
  refine (Program.Follows.invariant (J := j.Aside) (P := fun _ => True) ?_ h (.refl j)).mono
    fun j' _ h' => h'.1
  intro j' op hj' hop
  refine ⟨trivial, fun r => hj'.trans (Journal.aside_next ?_ r)⟩
  rw [hj'.message]
  exact hop

/-- Such a program, and what follows it. -/
theorem Aside.followed {ε α β : Type} {p : Program serverSignature ε α} {j : Journal}
    (h : Aside j.message p) {f : α → Program serverSignature ε β} {Q : Journal → Except ε β → Prop}
    (hok : ∀ j' a, j.Aside j' → Leaves j' (f a) Q)
    (herror : ∀ j' e, j.Aside j' → Q j' (.error e)) : Leaves j (p >>= f) Q :=
  Program.Follows.bind h.leaves hok herror

theorem ServerOp.aside_of_silent {op : ServerOp} (h : op.silent = true) (message : Option String) :
    op.aside message = true := by
  rcases op with op | _ | _ | op
  · cases op <;> first | rfl | cases h
  · cases h
  · cases h
  · cases op <;> first | rfl | cases h

theorem Silent.aside {ε α : Type} {p : Program serverSignature ε α} (h : Silent p)
    (message : Option String) : Aside message p :=
  Program.Only.mono h fun _ hop => ServerOp.aside_of_silent hop message

theorem Aside.ret {ε α : Type} {message : Option String} (a : α) :
    Aside message (.ret a : Program serverSignature ε α) := trivial

theorem Aside.exit {α : Type} {message : Option String} (result : ExecutionResult) :
    Aside message (Piqo.exit result : TurnProgram α) := trivial

theorem Aside.bind {ε α β : Type} {message : Option String} {p : Program serverSignature ε α}
    {f : α → Program serverSignature ε β} (hp : Aside message p) (hf : ∀ a, Aside message (f a)) :
    Aside message (p >>= f) :=
  Program.Only.bind hp hf

theorem Aside.orFail {α : Type} {message : Option String} {p : ServerProgram α}
    (h : Aside message p) : Aside message (Piqo.orFail p) :=
  Program.Follows.recover h (fun _ _ _ => trivial) fun _ _ _ => trivial

theorem Aside.query {β : Type} {message : Option String} {op : ExternalOp}
    (hop : (ServerOp.external op).aside message = true) {f : op.Reply → TurnProgram β}
    (hf : ∀ r, Aside message (f r)) : Aside message (Piqo.query op >>= f) :=
  ⟨hop, hf⟩

theorem Aside.ask {β : Type} {message : Option String} {op : ExternalOp}
    (hop : (ServerOp.external op).aside message = true) {f : op.Reply → ServerProgram β}
    (hf : ∀ r, Aside message (f r)) : Aside message (Piqo.ask op >>= f) :=
  only_ask hop hf

theorem Aside.onStore {β : Type} {message : Option String} {op : StoreOp}
    (hop : (ServerOp.store op).aside message = true) {f : op.Result → ServerProgram β}
    (hf : ∀ v, Aside message (f v)) : Aside message (Piqo.onStore op >>= f) :=
  only_onStore hop hf

theorem ServerOp.aside_of_routine {op : ServerOp} (h : op.routine = true)
    (message : Option String) : op.aside message = true := by
  rcases op with op | _ | _ | op
  · cases h
  · rfl
  · rfl
  · cases op <;> first | rfl | cases h

theorem Aside.append {message : Option String} {sessionId : String} {e : SemanticEvent}
    (h : e.aside message = true) : Aside message (Piqo.append sessionId e) := by
  refine only_append (fun op hop => ServerOp.aside_of_routine hop message) ?_
  simpa [ServerOp.aside] using h

/-- A silent program that does not fail, and what follows it. -/
theorem Asks.leaves {ε α β : Type} {p : Program serverSignature ε α} {j : Journal} (h : Asks p)
    {f : α → Program serverSignature ε β} {Q : Journal → Except ε β → Prop}
    (hok : ∀ j' a, j.Aside j' → Leaves j' (f a) Q) : Leaves j (p >>= f) Q := by
  have hp : Leaves j p fun j' x => j.Aside j' ∧ ∃ a, x = .ok a := by
    refine Program.Follows.invariant (J := j.Aside) ?_ h (.refl j)
    intro j' op hj' hop
    exact ⟨trivial, fun r => hj'.trans (Journal.aside_next (ServerOp.aside_of_silent hop _) r)⟩
  refine Program.Follows.bind hp ?_ ?_
  · rintro j' a ⟨haside, -⟩
    exact hok j' a haside
  · rintro j' e ⟨-, a, ha⟩
    cases ha

/-- What cannot fail a run, and what follows it. -/
theorem leaves_orFail_total {α β : Type} {p : ServerProgram α} {f : α → TurnProgram β}
    {j : Journal} {P : Journal → α → Prop} {Q : Journal → Except TurnExit β → Prop}
    (h : Leaves j p fun j' x => ∃ v, x = .ok v ∧ P j' v)
    (hok : ∀ j' v, P j' v → Leaves j' (f v) Q) : Leaves j (orFail p >>= f) Q := by
  refine Program.Follows.bind_total (P := P) (Program.Follows.recover h ?_ ?_) hok
  · rintro j' a ⟨v, hv, hP⟩
    cases hv
    exact ⟨a, rfl, hP⟩
  · rintro j' e ⟨v, hv, -⟩
    cases hv

/-! ## Before the request -/

section Prepare

variable {sessionId : String} {message : Option String}

theorem compactionSummary_aside (runId : String) (inputs : CompactionInputs) (artifactId : String)
    (selected : List MessageProjection) :
    Aside message (compactionSummary sessionId runId inputs artifactId selected) := by
  unfold compactionSummary
  cases inputs.config.context.compaction.strategy with
  | deterministic => exact .ret _
  | llm =>
    refine .bind (Program.Only.attempt ((summarizeContext_silent inputs selected).aside message))
      fun summary => ?_
    cases summary with
    | ok summary => exact .ret _
    | error e => exact .bind (.append rfl) fun _ => trivial

theorem budgetExceeded_aside (runId artifactId : String) :
    Aside message (budgetExceeded sessionId runId artifactId) :=
  .bind (.append rfl) fun _ => trivial

theorem buildCompactedBody_aside (runId : String) (inputs : CompactionInputs) :
    Aside message (buildCompactedBody sessionId runId inputs) := by
  unfold buildCompactedBody
  refine iteInduction (fun _ => ?_) fun _ => ?_
  · exact .bind (.append rfl) fun _ => Aside.onStore rfl fun _ => (Silent.ofExcept _).aside message
  refine Aside.onStore rfl fun projection => ?_
  refine .bind ((Silent.ofExcept _).aside message) fun body => ?_
  refine .bind ((contextBudget_silent _).aside message) fun budget => ?_
  refine iteInduction (fun _ => trivial) fun _ => ?_
  refine iteInduction (fun _ => trivial) fun _ => ?_
  cases projection.selected with
  | nil => exact Aside.ask rfl fun artifactId => budgetExceeded_aside runId artifactId
  | cons first rest =>
    refine Aside.ask rfl fun artifactId => .bind (.append rfl) fun _ =>
      .bind (compactionSummary_aside runId inputs artifactId _) fun summary =>
        .bind ((Silent.ofExcept _).aside message) fun compacted => ?_
    refine iteInduction (fun _ => budgetExceeded_aside runId artifactId) fun _ => ?_
    exact .bind (.append rfl) fun _ => .ret _

theorem buildExecution_aside (run : RunProjection) (request : RunRequest) (config : PiqoConfig)
    (provider : ResolvedProvider) :
    Aside message (buildExecution sessionId run request config provider) :=
  Aside.onStore rfl fun _ => Aside.ask rfl fun _ =>
    .bind (buildCompactedBody_aside _ _) fun _ => .ret _

theorem chooseExecution_aside (request : RunRequest) (earlier : Option RunExecution) :
    Aside message (chooseExecution request earlier) := by
  cases earlier with
  | some execution => exact .ret _
  | none =>
    refine .query rfl fun config => ?_
    cases config with
    | error text => exact .exit _
    | ok config =>
      refine .query rfl fun provider => ?_
      cases provider with
      | error e => exact .exit _
      | ok provider => exact .ret _

theorem startAttempt_aside (run : RunProjection) (left : Nat) :
    Aside message (startAttempt sessionId run left) := by
  unfold startAttempt
  refine iteInduction (fun _ => ?_) fun _ => ?_
  · cases run.attemptId with
    | some attemptId => exact .ret _
    | none => exact .query rfl fun _ => .ret _
  · exact .query rfl fun attemptId => .bind (.orFail (.append rfl)) fun _ => .ret _

/-- The user's message is written before there is one of the assistant. -/
theorem enterInput_aside (run : RunProjection) (request : RunRequest) :
    Aside message (enterInput sessionId run request message) := by
  unfold enterInput
  refine iteInduction (fun hfirst => ?_) fun _ => .ret _
  obtain ⟨-, rfl⟩ := hfirst
  refine .orFail ?_
  exact Aside.ask rfl fun userMessageId => Aside.bind (.append rfl) fun _ =>
    Aside.bind (.append rfl) fun _ => Aside.bind (.append rfl) fun _ => .ret _

theorem execution_aside (run : RunProjection) (request : RunRequest)
    (chosen : RunExecution ⊕ (PiqoConfig × ResolvedProvider)) :
    Aside message (execution sessionId run request chosen) := by
  cases chosen with
  | inl execution => exact .ret _
  | inr chosen => exact .orFail (buildExecution_aside run request chosen.1 chosen.2)

theorem checkSize_aside (body : Json) : Aside message (checkSize body) := by
  refine .query rfl fun config => ?_
  cases config with
  | error text => exact .exit _
  | ok config => exact iteInduction (fun _ => .exit _) fun _ => .ret _

theorem buildRequest_aside (body : Json) : Aside message (buildRequest body) := by
  refine .query rfl fun reply => ?_
  cases reply with
  | error text => exact .exit _
  | ok _ => exact .ret _

theorem recordFailedAttempt_aside (runId attemptId error : String) :
    Aside message (recordFailedAttempt sessionId runId attemptId error) :=
  .bind (Program.Only.attempt (Aside.append rfl)) fun _ => .ret _

end Prepare

end Piqo
