import PiqoServer.Server.Transcription

/-!
# The requests of an execution

A connection that fails is tried again, and so is a stream that breaks before anything came of it.
The two loops are nested: an attempt of the outer one begins the inner one with the retries that the
outer one has left, so that five retries allow six, five, four, three, two requests and one.

The requests are noted along the operations of an execution, with what has been appended since the
last one.

## Main definitions

* `Sending`, `sendingNext`: the requests of an execution, and what was appended since the last one
* `Retried`: what is appended between two requests
* `sendingAllows`: when a request is sent

## Main results

* `executeAttempts_sends`: an execution follows the protocol
* `requests_bounded`: the requests of an execution
-/

namespace Piqo

/-! ## The protocol -/

/-- The run and the body of a request. -/
def ServerOp.request? : ServerOp → Option (String × Json)
  | .external (.send runId body) => some (runId, body)
  | _ => none

/-- The session, the events and whether they were stored. -/
abbrev Appending := String × List SemanticEvent × Bool

/-- What an operation appends. -/
def ServerOp.appending? : (op : ServerOp) → op.Reply → Option Appending
  | .store (.append id events), r => some (id, events, r.isOk)
  | _, _ => none

/-- The requests of an execution, and what was appended since the last one. -/
structure Sending where
  requests : List (String × Json)
  since : List Appending

def Sending.start : Sending := ⟨[], []⟩

def sendingNext (g : Sending) (op : ServerOp) (r : op.Reply) : Sending :=
  match op.request? with
  | some request => { requests := g.requests ++ [request], since := [] }
  | none => { g with since := g.since ++ (op.appending? r).toList }

/-- Between two requests it is recorded that the attempt failed, where the store accepts that, and
that another one starts. -/
def Retried (sessionId runId : String) (since : List Appending) : Prop :=
  ∃ attemptId error recorded nextAttemptId attempt, since = [
    (sessionId, [.runAttemptFailed runId attemptId error true], recorded),
    (sessionId, [.runAttemptStarted runId nextAttemptId attempt], true)]

/-- The most requests with `left` retries left. -/
def maxRequests : Nat → Nat
  | 0 => 1
  | left + 1 => maxRequests left + (left + 2)

/-- A request is sent for the run, the same one as before, and again only in another attempt. -/
def sendingAllows (sessionId runId : String) (g : Sending) (op : ServerOp) : Prop :=
  ∀ request, op.request? = some request →
    request.1 = runId ∧ g.requests.length < maxRequests maxRetries ∧
      (∀ earlier ∈ g.requests, earlier = request) ∧
      (g.requests ≠ [] → Retried sessionId runId g.since)

section Rules

variable {sessionId runId : String} {ε α β : Type} {g : Sending}

theorem sendingAllows_of_none {op : ServerOp} (hop : op.request? = none) :
    sendingAllows sessionId runId g op := by
  intro request h
  rw [hop] at h
  cases h

theorem sendingNext_of_none {op : ServerOp} (hop : op.request? = none) (r : op.Reply) :
    sendingNext g op r = { g with since := g.since ++ (op.appending? r).toList } := by
  rw [sendingNext, hop]

/-- The execution up to `p` follows the protocol from `g`, and leaves `Q`. -/
abbrev Sends (sessionId runId : String) (g : Sending) (p : Program serverSignature ε α)
    (Q : Sending → Except ε α → Prop) : Prop :=
  p.Follows (sendingAllows sessionId runId) sendingNext Q g

/-- An operation that neither sends nor appends. -/
theorem sendingNext_of_unnoted {op : ServerOp} (hop : op.request? = none) {r : op.Reply}
    (hr : op.appending? r = none) : sendingNext g op r = g := by
  rw [sendingNext_of_none hop, hr, Option.toList_none, List.append_nil]

theorem sending_quiet : Quiet (sendingAllows sessionId runId) sendingNext where
  publish _ _ := ⟨sendingAllows_of_none rfl, sendingNext_of_unnoted rfl rfl⟩
  worker _ _ := ⟨sendingAllows_of_none rfl, sendingNext_of_unnoted rfl rfl⟩
  release _ _ := ⟨sendingAllows_of_none rfl, sendingNext_of_unnoted rfl rfl⟩
  shutdown _ _ := ⟨sendingAllows_of_none rfl, sendingNext_of_unnoted rfl rfl⟩

/-- An external operation that sends nothing, and what follows it. -/
theorem sends_query {op : ExternalOp} (hop : (ServerOp.external op).request? = none)
    {f : op.Reply → TurnProgram β} {Q : Sending → Except TurnExit β → Prop}
    (hf : ∀ r, Sends sessionId runId g (f r) Q) : Sends sessionId runId g (query op >>= f) Q := by
  refine ⟨sendingAllows_of_none hop, fun r => ?_⟩
  rw [@sendingNext_of_unnoted g (.external op) hop r rfl]
  exact hf r

/-- The appending of an event is noted. -/
theorem append_sends (event : SemanticEvent) :
    Sends sessionId runId g (append sessionId event) fun g' x => ∃ stored,
      g' = { g with since := g.since ++ [(sessionId, [event], stored)] } ∧
        ∀ record, x = .ok record → stored = true := by
  have hnext (r : Except StoreError (List RecordedEvent)) :
      sendingNext g (.store (.append sessionId [event])) r =
        { g with since := g.since ++ [(sessionId, [event], r.isOk)] } :=
    @sendingNext_of_none g (.store (.append sessionId [event])) rfl r
  refine sending_quiet.append (sendingAllows_of_none rfl) ?_ ?_
  · intro records record
    exact ⟨true, hnext _, fun _ _ => rfl⟩
  · intro r e
    exact ⟨r.isOk, hnext r, nofun⟩

theorem ServerOp.request?_of_aside {op : ServerOp} {message : Option String}
    (h : op.aside message = true) : op.request? = none := by
  rcases op with op | _ | _ | op
  · rfl
  · rfl
  · rfl
  · cases op <;> first | rfl | cases h

/-- Before the request nothing is sent. -/
theorem Aside.sends {message : Option String} {p : Program serverSignature ε α}
    (h : Aside message p) : Sends sessionId runId g p fun g' _ => g'.requests = g.requests := by
  refine (Program.Follows.invariant (J := fun g' => g'.requests = g.requests)
    (P := fun _ => True) ?_ h rfl).mono fun g' _ h' => h'.1
  intro g' op hg' hop
  have hnone := ServerOp.request?_of_aside hop
  refine ⟨sendingAllows_of_none hnone, fun r => ?_⟩
  rw [sendingNext_of_none hnone]
  exact hg'

theorem ServerOp.unnoted_of_silent {op : ServerOp} (h : op.silent = true) :
    op.request? = none ∧ ∀ r, op.appending? r = none := by
  rcases op with op | _ | _ | op
  · cases op <;> first | exact ⟨rfl, fun _ => rfl⟩ | cases h
  · exact ⟨rfl, fun _ => rfl⟩
  · exact ⟨rfl, fun _ => rfl⟩
  · cases op <;> first | exact ⟨rfl, fun _ => rfl⟩ | cases h

/-- A silent program that does not fail, and what follows it. -/
theorem Asks.sends {p : Program serverSignature ε α} (h : Asks p)
    {f : α → Program serverSignature ε β} {Q : Sending → Except ε β → Prop}
    (hok : ∀ a, Sends sessionId runId g (f a) Q) : Sends sessionId runId g (p >>= f) Q := by
  have hp : Sends sessionId runId g p fun g' x => g' = g ∧ ∃ a, x = .ok a := by
    refine Program.Follows.invariant (J := (· = g)) ?_ h rfl
    rintro _ op rfl hop
    obtain ⟨hnone, hunnoted⟩ := ServerOp.unnoted_of_silent hop
    refine ⟨sendingAllows_of_none hnone, fun r => ?_⟩
    exact sendingNext_of_unnoted hnone (hunnoted r)
  refine Program.Follows.bind hp ?_ ?_
  · rintro g' a ⟨rfl, -⟩
    exact hok a
  · rintro g' e ⟨-, a, ha⟩
    cases ha

end Rules

/-! ## Reading a response -/

/-- Nothing of a response has been recorded, and the reading goes on. -/
def StreamState.untouched (st : StreamState) : Bool := !st.sawDelta && !st.over

/-- Between the request and the state `st` of reading: as long as nothing is recorded nothing is
appended, and an attempt is worth another one only then. -/
structure ReadSince (g g' : Sending) (st : StreamState) : Prop where
  requests : g'.requests = g.requests
  untouched : st.untouched = true → g'.since = g.since ∧ st.textBuffer = "" ∧ st.toolBuffers = []
  outcome : ∀ error, st.outcome ≠ .failed error true

/-- What recording a piece appends. -/
def ProviderDelta.appends : ProviderDelta → Bool
  | .text _ | .toolCall .. | .requiresAction => true
  | .toolCallDelta .. | .usage _ | .completed => false

section Reading

variable {sessionId runId messageId : String} {g₀ g : Sending} {st : StreamState}

/-- Appending, when only the requests matter. -/
theorem append_keeps (event : SemanticEvent) : Sends sessionId runId g (append sessionId event)
    fun g' _ => g'.requests = g.requests := by
  refine (append_sends event).mono ?_
  rintro g' x ⟨stored, rfl, -⟩
  rfl

theorem persistDelta_sends (delta : ProviderDelta) :
    Sends sessionId runId g (persistDelta sessionId runId messageId delta) fun g' x =>
      g'.requests = g.requests ∧ (delta.appends = false → g' = g) ∧
        (∀ r, x = .ok r → delta = .requiresAction → r = .requiresAction) := by
  have happend : ∀ (event : SemanticEvent) (r : DeltaResult), delta.appends = true →
      (delta = .requiresAction → r = .requiresAction) →
      Sends sessionId runId g (append sessionId event >>= fun _ => Program.ret r) fun g' x =>
        g'.requests = g.requests ∧ (delta.appends = false → g' = g) ∧
          (∀ r, x = .ok r → delta = .requiresAction → r = .requiresAction) := by
    intro event r happends hr
    have hnot : delta.appends = false → False := by simp [happends]
    refine (append_keeps event).bind ?_ ?_
    · intro g' _ hg'
      refine ⟨hg', fun h => (hnot h).elim, ?_⟩
      rintro r' h hdelta
      cases h
      exact hr hdelta
    · intro g' e hg'
      exact ⟨hg', fun h => (hnot h).elim, nofun⟩
  cases delta with
  | text text => exact happend _ _ rfl nofun
  | toolCall callId name arguments =>
    have hcall : ∀ id, Sends sessionId runId g
        (isNativeCallOrFalse sessionId runId (name.getD "function") >>= fun native =>
          parseArguments arguments >>= fun parsed => append sessionId (.toolCallEmitted runId
            messageId id "assistant" (name.getD "function") parsed arguments native) >>= fun _ =>
              Program.ret DeltaResult.none) fun g' x =>
        g'.requests = g.requests ∧
          ((ProviderDelta.toolCall callId name arguments).appends = false → g' = g) ∧
          (∀ r, x = .ok r → ProviderDelta.toolCall callId name arguments = .requiresAction →
            r = .requiresAction) := fun id =>
      (isNativeCallOrFalse_asks ..).sends fun native =>
        (parseArguments_asks _).sends fun parsed => happend _ _ rfl nofun
    cases callId with
    | some id => exact hcall id
    | none =>
      have hid : Asks (ask .newUuid) := ⟨rfl, fun id => ⟨id, rfl⟩⟩
      exact hid.sends hcall
  | toolCallDelta index callId name arguments => exact ⟨rfl, fun _ => rfl, nofun⟩
  | usage value => exact ⟨rfl, fun _ => rfl, nofun⟩
  | completed => exact ⟨rfl, fun _ => rfl, nofun⟩
  | requiresAction => exact happend _ _ rfl fun _ => rfl

/-- The reading is over, and the attempt is not worth another one. -/
def StreamState.halted (st : StreamState) : Prop :=
  st.over = true ∧ ∀ error, st.outcome ≠ .failed error true

theorem ReadSince.of_halted (hrequests : g.requests = g₀.requests) (h : st.halted) :
    ReadSince g₀ g st :=
  ⟨hrequests, by simp [StreamState.untouched, h.1], h.2⟩

theorem ReadSince.of_sawDelta (hrequests : g.requests = g₀.requests) (hsaw : st.sawDelta = true)
    (houtcome : ∀ error, st.outcome ≠ .failed error true) : ReadSince g₀ g st :=
  ⟨hrequests, by simp [StreamState.untouched, hsaw], houtcome⟩

theorem halted_of_failed {error : String} (h : st.outcome = .failed error false) : st.halted :=
  ⟨by rw [StreamState.over, h], by simp [h]⟩

theorem halted_of_requiresAction (h : st.outcome = .requiresAction) : st.halted :=
  ⟨by rw [StreamState.over, h], by simp [h]⟩

theorem flushText_sends (h : ReadSince g₀ g st) (hsaw : st.sawDelta = true) :
    Sends sessionId runId g (flushText sessionId runId messageId st) fun g' x =>
      ∃ v, x = .ok v ∧ ReadSince g₀ g' v.1 ∧ (v.2 = false → v.1.over = st.over) := by
  refine Program.Follows.bind_total (P := fun g' _ => g'.requests = g.requests)
    ((persistDelta_sends _).mono fun g' x hx => ⟨x, rfl, hx.1⟩).attempt ?_
  intro g' x hg'
  have hrequests : g'.requests = g₀.requests := hg'.trans h.requests
  cases x with
  | ok r => exact ⟨_, rfl, .of_sawDelta hrequests hsaw h.outcome, fun _ => rfl⟩
  | error e => exact ⟨_, rfl, .of_halted hrequests (halted_of_failed rfl), nofun⟩

/-- What recording a piece leaves: the reading is over, or only the usage is noted. -/
structure DeltaRecorded (g : Sending) (st : StreamState) (delta : ProviderDelta) (g' : Sending)
    (st' : StreamState) : Prop where
  requests : g'.requests = g.requests
  state : st'.halted ∨ delta ≠ .requiresAction ∧ (delta.appends = false → g' = g) ∧
    ∃ usage, st' = { st with usage }

theorem recordDelta_sends (delta : ProviderDelta) :
    Sends sessionId runId g (recordDelta sessionId runId messageId st delta) fun g' x =>
      ∃ v, x = .ok v ∧ DeltaRecorded g st delta g' v.1 := by
  refine Program.Follows.bind_total (P := fun g' x => g'.requests = g.requests ∧
    (delta.appends = false → g' = g) ∧
      (∀ r, x = .ok r → delta = .requiresAction → r = .requiresAction))
    ((persistDelta_sends delta).mono fun g' x hx => ⟨x, rfl, hx⟩).attempt ?_
  rintro g' x ⟨hg', hsame, haction⟩
  cases x with
  | error e => exact ⟨_, rfl, hg', .inl (halted_of_failed rfl)⟩
  | ok r =>
    have hother : r ≠ .requiresAction → delta ≠ .requiresAction :=
      fun hr hdelta => hr (haction r rfl hdelta)
    cases r with
    | requiresAction => exact ⟨_, rfl, hg', .inl (halted_of_requiresAction rfl)⟩
    | none => exact ⟨_, rfl, hg', .inr ⟨hother nofun, hsame, st.usage, rfl⟩⟩
    | usage value => exact ⟨_, rfl, hg', .inr ⟨hother nofun, hsame, some value, rfl⟩⟩

/-- A piece that is recorded after another one was seen, or that appends nothing. -/
theorem DeltaRecorded.readSince {delta : ProviderDelta} {g' : Sending} {st' : StreamState}
    (h : DeltaRecorded g st delta g' st') (hsince : ReadSince g₀ g st)
    (hsaw : delta.appends = true → st.sawDelta = true ∨ delta = .requiresAction) :
    ReadSince g₀ g' st' := by
  have hrequests := h.requests.trans hsince.requests
  rcases h.state with hhalted | ⟨hdelta, hsame, usage, rfl⟩
  · exact .of_halted hrequests hhalted
  · cases happends : delta.appends with
    | true => exact .of_sawDelta hrequests ((hsaw happends).resolve_right hdelta) hsince.outcome
    | false =>
      rw [hsame happends]
      exact ⟨hsince.requests, hsince.untouched, hsince.outcome⟩

/-- Calls that came in pieces are written; without one nothing happens. -/
theorem flushTools_sends (buffers : List (String × ToolCallBuffer)) (outcome : ExecutionResult) :
    Sends sessionId runId g (flushTools sessionId runId messageId buffers outcome) fun g' x =>
      ∃ r, x = .ok r ∧ g'.requests = g.requests ∧
        (r = outcome ∨ ∀ st : StreamState, st.outcome = r → st.halted) ∧
        (buffers = [] → g' = g ∧ r = outcome) := by
  induction buffers generalizing g with
  | nil => exact ⟨outcome, rfl, rfl, .inl rfl, fun _ => ⟨rfl, rfl⟩⟩
  | cons buffer buffers ih =>
    refine Program.Follows.bind_total (P := fun g' _ => g'.requests = g.requests)
      ((persistDelta_sends _).mono fun g' x hx => ⟨x, rfl, hx.1⟩).attempt ?_
    intro g' x hg'
    have hmore : Sends sessionId runId g' (flushTools sessionId runId messageId buffers outcome)
        fun g'' x => ∃ r, x = .ok r ∧ g''.requests = g.requests ∧
          (r = outcome ∨ ∀ st : StreamState, st.outcome = r → st.halted) ∧
          (buffer :: buffers = [] → g'' = g ∧ r = outcome) := by
      refine ih.mono ?_
      rintro g'' x ⟨r, rfl, hg'', hr, -⟩
      exact ⟨r, rfl, hg''.trans hg', hr, nofun⟩
    cases x with
    | error e => exact ⟨_, rfl, hg', .inr fun _ => halted_of_failed, nofun⟩
    | ok r =>
      cases r with
      | requiresAction => exact ⟨_, rfl, hg', .inr fun _ => halted_of_requiresAction, nofun⟩
      | none => exact hmore
      | usage value => exact hmore

/-- The calls have been written, and the piece that completes the response is next. -/
theorem ReadSince.flushed {g' : Sending} {r : ExecutionResult} (h : ReadSince g₀ g st)
    (hrequests : g'.requests = g.requests)
    (hr : r = st.outcome ∨ ∀ st : StreamState, st.outcome = r → st.halted)
    (hnone : st.toolBuffers = [] → g' = g ∧ r = st.outcome) :
    ReadSince g₀ g' { st with sawCompleted := true, toolBuffers := [], outcome := r } := by
  rcases hr with rfl | hhalted
  · refine ⟨hrequests.trans h.requests, fun huntouched => ?_, h.outcome⟩
    obtain ⟨hsince, htext, htools⟩ := h.untouched huntouched
    rw [(hnone htools).1]
    exact ⟨hsince, htext, rfl⟩
  · exact .of_halted (hrequests.trans h.requests) (hhalted _ rfl)

theorem readDelta_sends (delta : ProviderDelta) (h : ReadSince g₀ g st) :
    Sends sessionId runId g (readDelta sessionId runId messageId st delta) fun g' x =>
      ∃ v, x = .ok v ∧ ReadSince g₀ g' v.1 := by
  have hrecord : ∀ (g : Sending) (st : StreamState) (delta : ProviderDelta), ReadSince g₀ g st →
      (delta.appends = true → st.sawDelta = true ∨ delta = .requiresAction) →
      Sends sessionId runId g (recordDelta sessionId runId messageId st delta) fun g' x =>
        ∃ v, x = .ok v ∧ ReadSince g₀ g' v.1 := by
    intro g st delta h hsaw
    refine (recordDelta_sends delta).mono ?_
    rintro g' x ⟨v, rfl, hv⟩
    exact ⟨v, rfl, hv.readSince h hsaw⟩
  cases delta with
  | toolCallDelta index callId name arguments =>
    exact ⟨_, rfl, .of_sawDelta h.requests rfl h.outcome⟩
  | text text =>
    have hsaw : ReadSince g₀ g
        { st with sawDelta := true, textBuffer := st.textBuffer ++ text } :=
      .of_sawDelta h.requests rfl h.outcome
    refine (textDue_asks _).sends fun due => ?_
    refine iteInduction (fun _ => (flushText_sends hsaw rfl).mono ?_) fun _ => ⟨_, rfl, hsaw⟩
    rintro g' x ⟨v, rfl, hv, -⟩
    exact ⟨v, rfl, hv⟩
  | completed =>
    refine Program.Follows.bind_total (P := fun g' r => g'.requests = g.requests ∧
      (r = st.outcome ∨ ∀ st : StreamState, st.outcome = r → st.halted) ∧
        (st.toolBuffers = [] → g' = g ∧ r = st.outcome)) (flushTools_sends _ _) ?_
    rintro g' r ⟨hrequests, hr, hnone⟩
    exact hrecord g' _ _ (h.flushed hrequests hr hnone) nofun
  | toolCall callId name arguments =>
    exact hrecord g _ _ (.of_sawDelta h.requests rfl h.outcome) fun _ => .inl rfl
  | usage value => exact hrecord g _ _ h nofun
  | requiresAction => exact hrecord g _ _ h fun _ => .inr rfl

theorem readDeltas_sends (deltas : List ProviderDelta) (h : ReadSince g₀ g st) :
    Sends sessionId runId g (readDeltas sessionId runId messageId deltas st) fun g' x =>
      ∃ v, x = .ok v ∧ ReadSince g₀ g' v := by
  induction deltas generalizing g st with
  | nil => exact ⟨st, rfl, h⟩
  | cons delta deltas ih =>
    refine Program.Follows.bind_total (P := fun g' v => ReadSince g₀ g' v.1)
      (readDelta_sends delta h) ?_
    rintro g' ⟨st', stop⟩ h'
    exact iteInduction (fun _ => ⟨st', rfl, h'⟩) fun _ => ih h'

theorem readFrames_sends (frames : List (Except String (List ProviderDelta)))
    (h : ReadSince g₀ g st) :
    Sends sessionId runId g (readFrames sessionId runId messageId frames st) fun g' x =>
      ∃ v, x = .ok v ∧ ReadSince g₀ g' v := by
  induction frames generalizing g st with
  | nil => exact ⟨st, rfl, h⟩
  | cons frame frames ih =>
    cases frame with
    | error e => exact ⟨_, rfl, .of_halted h.requests (halted_of_failed rfl)⟩
    | ok deltas =>
      refine Program.Follows.bind_total (P := fun g' v => ReadSince g₀ g' v)
        (readDeltas_sends deltas h) fun g' st' h' => ?_
      exact iteInduction (fun _ => ⟨st', rfl, h'⟩) fun _ => ih h'

/-- A property of what a program returns; one that fails ends the execution. -/
def Returning {ε α : Type} (P : Sending → α → Prop) (g : Sending) (x : Except ε α) : Prop :=
  ∀ a, x = .ok a → P g a

theorem Returning.ret {ε α : Type} {P : Sending → α → Prop} {a : α} (h : P g a) :
    Sends sessionId runId g (.ret a : Program serverSignature ε α) (Returning P) := by
  intro a' ha'
  cases ha'
  exact h

theorem Returning.bind {ε α β : Type} {P : Sending → α → Prop} {R : Sending → β → Prop}
    {p : Program serverSignature ε α} {f : α → Program serverSignature ε β}
    (h : Sends sessionId runId g p (Returning P))
    (hf : ∀ g' a, P g' a → Sends sessionId runId g' (f a) (Returning R)) :
    Sends sessionId runId g (p >>= f) (Returning R) :=
  Program.Follows.bind h (fun g' a ha => hf g' a (ha a rfl)) fun _ _ _ _ => nofun

theorem Returning.orFail {α : Type} {P : Sending → α → Prop} {p : ServerProgram α}
    (h : Sends sessionId runId g p (Returning P)) :
    Sends sessionId runId g (Piqo.orFail p) (Returning P) :=
  Program.Follows.recover h (fun _ _ hv => fun a ha => hv a (by cases ha; rfl)) fun _ _ _ _ => nofun

theorem Returning.exit {α : Type} {P : Sending → α → Prop} (result : ExecutionResult) :
    Sends sessionId runId g (Piqo.exit result : TurnProgram α) (Returning P) := nofun

/-- What never fails, seen as something that returns. -/
theorem Returning.of_total {ε α : Type} {P : Sending → α → Prop} {p : Program serverSignature ε α}
    (h : Sends sessionId runId g p fun g' x => ∃ v, x = .ok v ∧ P g' v) :
    Sends sessionId runId g p (Returning P) := by
  refine h.mono ?_
  rintro g' x ⟨v, rfl, hv⟩ a ha
  cases ha
  exact hv

/-- What the reading of a response leaves: after an attempt that is worth another one nothing has
been appended. -/
structure ResponseOver (g g' : Sending) (st : StreamState) : Prop where
  requests : g'.requests = g.requests
  again : ∀ error, st.outcome = .failed error true → g'.since = g.since ∧ st.textBuffer = ""

theorem ReadSince.responseOver (h : ReadSince g₀ g st) : ResponseOver g₀ g st :=
  ⟨h.requests, fun error herror => absurd herror (h.outcome error)⟩

theorem readItems_sends (items : List StreamItem) (h : ReadSince g₀ g st)
    (hover : st.over = false) :
    Sends sessionId runId g (readItems sessionId runId messageId items st)
      (Returning (ResponseOver g₀)) := by
  induction items generalizing g st with
  | nil => exact Returning.ret h.responseOver
  | cons item items ih =>
    cases item with
    | cancelled => exact Returning.exit _
    | shutdown => exact Returning.exit _
    | tick =>
      refine iteInduction (fun _ => ih h hover) fun hempty => ?_
      -- there is text only where something was seen
      have hsaw : st.sawDelta = true := by
        by_contra hsaw
        have huntouched : st.untouched = true := by
          simpa [StreamState.untouched, hover] using hsaw
        rw [(h.untouched huntouched).2.1] at hempty
        exact hempty rfl
      refine Returning.bind (Returning.orFail (Returning.of_total (flushText_sends h hsaw))) ?_
      rintro g' ⟨st', stop⟩ ⟨h', hover'⟩
      cases stop with
      | true => exact Returning.ret h'.responseOver
      | false => exact ih h' ((hover' rfl).trans hover)
    | broken e =>
      refine Returning.ret ⟨h.requests, fun error herror => ?_⟩
      have hsaw : (!st.sawDelta) = true := (ExecutionResult.failed.inj herror).2
      have huntouched : st.untouched = true := by simp [StreamState.untouched, hsaw, hover]
      obtain ⟨hsince, htext, -⟩ := h.untouched huntouched
      exact ⟨hsince, htext⟩
    | chunk frames =>
      refine Returning.bind (Returning.orFail (Returning.of_total (readFrames_sends frames h))) ?_
      intro g' st' h'
      refine iteInduction (fun _ => Returning.ret h'.responseOver) fun hover' => ih h' ?_
      simpa using hover'

theorem readStream_sends (items : List StreamItem) :
    Sends sessionId runId g (readStream sessionId runId messageId items)
      (Returning (ResponseOver g)) := by
  have hstart : ReadSince g g {} := ⟨rfl, fun _ => ⟨rfl, rfl, rfl⟩, by simp⟩
  refine Returning.bind (readItems_sends items hstart rfl) fun g' st h => ?_
  exact iteInduction (fun _ => Returning.ret ⟨h.requests, by simp⟩) fun _ => Returning.ret h

theorem readWhole_sends (deltas : List ProviderDelta)
    (houtcome : ∀ error, st.outcome ≠ .failed error true) :
    Sends sessionId runId g (readWhole sessionId runId messageId deltas st) fun g' x =>
      ∃ v, x = .ok v ∧ g'.requests = g.requests ∧ ∀ error, v.outcome ≠ .failed error true := by
  induction deltas generalizing g st with
  | nil => exact ⟨st, rfl, rfl, houtcome⟩
  | cons delta deltas ih =>
    have hrecord : Sends sessionId runId g (recordDelta sessionId runId messageId st delta >>=
        fun v => if v.2 then Program.ret v.1 else readWhole sessionId runId messageId deltas v.1)
        fun g' x => ∃ v, x = .ok v ∧ g'.requests = g.requests ∧
          ∀ error, v.outcome ≠ .failed error true := by
      refine Program.Follows.bind_total (P := fun g' v => DeltaRecorded g st delta g' v.1)
        (recordDelta_sends delta) ?_
      rintro g' ⟨st', stop⟩ ⟨hrequests, hstate⟩
      have houtcome' : ∀ error, st'.outcome ≠ .failed error true := by
        rcases hstate with hhalted | ⟨-, -, usage, rfl⟩
        · exact hhalted.2
        · exact houtcome
      refine iteInduction (fun _ => ⟨st', rfl, hrequests, houtcome'⟩) fun _ => ?_
      refine (ih houtcome').mono ?_
      rintro g'' x ⟨v, rfl, hrequests', hv⟩
      exact ⟨v, rfl, hrequests'.trans hrequests, hv⟩
    cases delta with
    | text text => exact ih houtcome
    | toolCallDelta | toolCall | usage | completed | requiresAction => exact hrecord

theorem readText_sends (reply : TextReply) :
    Sends sessionId runId g (readText sessionId runId messageId reply)
      (Returning (ResponseOver g)) := by
  cases reply with
  | cancelled => exact Returning.exit _
  | shutdown => exact Returning.exit _
  | broken e => exact Returning.ret ⟨rfl, fun _ _ => ⟨rfl, rfl⟩⟩
  | text deltas =>
    cases deltas with
    | error e => exact Returning.ret ⟨rfl, by simp⟩
    | ok deltas =>
      refine Returning.orFail (Returning.of_total ((readWhole_sends deltas (by simp)).mono ?_))
      rintro g' x ⟨v, rfl, hrequests, houtcome⟩
      exact ⟨v, rfl, hrequests, fun error herror => absurd herror (houtcome error)⟩

theorem flushRest_sends (h : ResponseOver g₀ g st) :
    Sends sessionId runId g (flushRest sessionId runId messageId st)
      (Returning fun g' _ => ResponseOver g₀ g' st) := by
  refine iteInduction (fun _ => Returning.ret h) fun hempty => ?_
  have hrest : ∀ g', g'.requests = g.requests → ResponseOver g₀ g' st := by
    intro g' hg'
    refine ⟨hg'.trans h.requests, fun error herror => ?_⟩
    rw [(h.again error herror).2] at hempty
    exact absurd rfl hempty
  refine Returning.bind (P := fun g' _ => g'.requests = g.requests) ?_ fun g' _ hg' =>
    Returning.ret (hrest g' hg')
  refine Program.Follows.recover (persistDelta_sends _) ?_ fun _ _ _ _ => nofun
  rintro g' r ⟨hg', -⟩ a -
  exact hg'

theorem readResponse_sends (body : Json) (response : ProviderResponse) :
    Sends sessionId runId g (readResponse sessionId runId messageId body response)
      (Returning (ResponseOver g)) := by
  have hstatus : Sends sessionId runId g (checkStatus response)
      (Returning fun g' _ => g' = g) :=
    iteInduction (fun _ => Returning.ret rfl) fun _ => Returning.exit _
  refine Returning.bind hstatus ?_
  rintro g' _ rfl
  have hbody : Sends sessionId runId g' (readBody sessionId runId messageId body response)
      (Returning (ResponseOver g')) :=
    iteInduction (fun _ => readStream_sends _) fun _ => readText_sends _
  refine Returning.bind hbody fun g'' st h => ?_
  exact Returning.bind (flushRest_sends h) fun _ _ h' => Returning.ret h'

end Reading

/-! ## Sending the request -/

section Execute

variable {sessionId : String} {run : RunProjection} {g : Sending}

/-- A request with this body may be sent. -/
structure Ready (sessionId : String) (run : RunProjection) (body : Json) (g : Sending) : Prop where
  same : ∀ request ∈ g.requests, request = (run.runId, body)
  retried : g.requests ≠ [] → Retried sessionId run.runId g.since

/-- At most `most` requests with this body have been sent, and at least one. -/
structure Sent (run : RunProjection) (body : Json) (most : Nat) (g : Sending) : Prop where
  same : ∀ request ∈ g.requests, request = (run.runId, body)
  sent : g.requests ≠ []
  most : g.requests.length ≤ most

theorem recordFailedAttempt_sends (attemptId error : String) :
    Sends sessionId run.runId g (recordFailedAttempt sessionId run.runId attemptId error)
      (Returning fun g' _ => ∃ stored, g' = { g with since := g.since ++
        [(sessionId, [.runAttemptFailed run.runId attemptId error true], stored)] }) := by
  refine Returning.bind (Returning.of_total (Program.Follows.attempt ((append_sends _).mono ?_)))
    fun g' _ h => Returning.ret h
  rintro g' x ⟨stored, rfl, -⟩
  exact ⟨x, rfl, stored, rfl⟩

theorem startedAttempt_sends (attemptId : String) (attempt : Nat) :
    Sends sessionId run.runId g
      (orFail (append sessionId (.runAttemptStarted run.runId attemptId attempt)))
      (Returning fun g' _ => g' = { g with since := g.since ++
        [(sessionId, [.runAttemptStarted run.runId attemptId attempt], true)] }) := by
  refine Returning.orFail ((append_sends _).mono ?_)
  rintro g' x ⟨stored, rfl, hstored⟩ record hx
  rw [hstored record hx]

theorem sendRequest_sends (body : Json) (left : Nat) (attemptId : String)
    (h : Ready sessionId run body g)
    (hmost : g.requests.length + (left + 1) ≤ maxRequests maxRetries) :
    Sends sessionId run.runId g (sendRequest sessionId run body left attemptId)
      (Returning fun g' _ => Sent run body (g.requests.length + (left + 1)) g' ∧
        g'.since = []) := by
  have hallowed : ∀ {g : Sending} {left : Nat}, Ready sessionId run body g →
      g.requests.length + (left + 1) ≤ maxRequests maxRetries →
      sendingAllows sessionId run.runId g (.external (.send run.runId body)) := by
    intro g left h hmost request hrequest
    cases hrequest
    exact ⟨rfl, by omega, h.same, h.retried⟩
  have hsame : ∀ {g : Sending}, Ready sessionId run body g →
      ∀ request ∈ g.requests ++ [(run.runId, body)], request = (run.runId, body) := by
    intro g h request hrequest
    rcases List.mem_append.mp hrequest with hrequest | hrequest
    · exact h.same request hrequest
    · exact List.mem_singleton.mp hrequest
  have hsent : ∀ {g : Sending} {left : Nat}, Ready sessionId run body g →
      Sent run body (g.requests.length + (left + 1))
        ⟨g.requests ++ [(run.runId, body)], []⟩ := by
    intro g left h
    refine ⟨hsame h, by simp, ?_⟩
    rw [List.length_append, List.length_singleton]
    omega
  induction left generalizing g attemptId with
  | zero =>
    unfold sendRequest
    refine ⟨hallowed h hmost, fun reply => ?_⟩
    cases reply with
    | cancelled => exact Returning.exit _
    | shutdown => exact Returning.exit _
    | failed error => exact Returning.exit _
    | response response => exact Returning.ret ⟨hsent h, rfl⟩
  | succ left ih =>
    unfold sendRequest
    refine ⟨hallowed h hmost, fun reply => ?_⟩
    cases reply with
    | cancelled => exact Returning.exit _
    | shutdown => exact Returning.exit _
    | response response => exact Returning.ret ⟨hsent h, rfl⟩
    | failed error =>
      change Sends _ _ _ (orFail (recordFailedAttempt sessionId run.runId attemptId error) >>= _) _
      refine Returning.bind (Returning.orFail (recordFailedAttempt_sends attemptId error)) ?_
      rintro _ _ ⟨stored, rfl⟩
      refine sends_query rfl fun nextAttemptId => ?_
      refine Returning.bind (startedAttempt_sends nextAttemptId _) ?_
      rintro _ _ rfl
      refine sends_query rfl fun shutdown => iteInduction (fun _ => Returning.exit _) fun _ => ?_
      have hlength : (g.requests ++ [(run.runId, body)]).length = g.requests.length + 1 := by simp
      have hready : Ready sessionId run body ⟨g.requests ++ [(run.runId, body)],
          [(sessionId, [.runAttemptFailed run.runId attemptId error true], stored),
            (sessionId, [.runAttemptStarted run.runId nextAttemptId
              (run.attempts + (maxRetries - left))], true)]⟩ :=
        ⟨hsame h, fun _ => ⟨attemptId, error, stored, nextAttemptId, _, rfl⟩⟩
      refine (ih nextAttemptId hready ?_).mono ?_
      · simp only
        omega
      · intro g' x hx response hresponse
        obtain ⟨hsent', hsince⟩ := hx response hresponse
        refine ⟨⟨hsent'.same, hsent'.sent, hsent'.most.trans ?_⟩, hsince⟩
        simp only
        omega

/-! ## Attempts -/

/-- Before an attempt: nothing has been sent, or the failure of the attempt before is recorded. -/
def Pending (sessionId : String) (run : RunProjection) (g : Sending) :
    Option RunExecution → Option String → Prop
  | none, none => g.requests = []
  | some execution, some _ => g.requests ≠ [] ∧
      (∀ request ∈ g.requests, request = (run.runId, execution.body)) ∧
      ∃ attemptId error stored, g.since =
        [(sessionId, [.runAttemptFailed run.runId attemptId error true], stored)]
  | _, _ => False

/-- What an attempt leaves. -/
structure AttemptOver (run : RunProjection) (most : Nat) (g : Sending) (a : Attempt) : Prop where
  sent : Sent run a.execution.body most g
  again : ∀ error, a.state.outcome = .failed error true → g.since = []

/-- The end of an attempt, from its request on. -/
theorem attempt_sends {body : Json} {left : Nat} {attemptId messageId : String}
    {provider : ResolvedProvider} (h : Ready sessionId run body g)
    (hmost : g.requests.length + (left + 1) ≤ maxRequests maxRetries) :
    Sends sessionId run.runId g (sendRequest sessionId run body left attemptId >>= fun sent =>
        readResponse sessionId run.runId messageId body sent.1 >>= fun state =>
          Program.ret { state, execution := ⟨provider, body⟩, assistantMessageId := messageId
                        attemptId := sent.2 })
      (Returning (AttemptOver run (g.requests.length + (left + 1)))) := by
  refine Returning.bind (sendRequest_sends body left attemptId h hmost) ?_
  rintro g' ⟨response, attemptId'⟩ ⟨hsent, hsince⟩
  refine Returning.bind (readResponse_sends body response) fun g'' st hread => ?_
  refine Returning.ret ⟨⟨?_, ?_, ?_⟩, fun error herror => ?_⟩
  · rw [hread.requests]
    exact hsent.same
  · rw [hread.requests]
    exact hsent.sent
  · rw [hread.requests]
    exact hsent.most
  · rw [(hread.again error herror).1, hsince]

theorem checkSize_sends (body : Json) :
    Sends sessionId run.runId g (checkSize body) (Returning fun g' _ => g' = g) := by
  refine sends_query rfl fun config => ?_
  cases config with
  | error message => exact Returning.exit _
  | ok config => exact iteInduction (fun _ => Returning.exit _) fun _ => Returning.ret rfl

theorem buildRequest_sends (body : Json) :
    Sends sessionId run.runId g (buildRequest body) (Returning fun g' _ => g' = g) := by
  refine sends_query rfl fun reply => ?_
  cases reply with
  | error message => exact Returning.exit _
  | ok _ => exact Returning.ret rfl

/-- A part before the first request. -/
theorem Aside.returning {α : Type} {p : TurnProgram α}
    (h : Aside none p) (hnone : g.requests = []) :
    Sends sessionId run.runId g p (Returning fun g' _ => g'.requests = []) :=
  h.sends.mono fun _ _ hg' _ _ => hg'.trans hnone

theorem attemptRun_sends {earlier : Option RunExecution} {existing : Option String} {left : Nat}
    (h : Pending sessionId run g earlier existing) (hleft : earlier.isSome = true → left ≠ maxRetries)
    (hmost : g.requests.length + (left + 1) ≤ maxRequests maxRetries) :
    Sends sessionId run.runId g (attemptRun sessionId run earlier existing left)
      (Returning (AttemptOver run (g.requests.length + (left + 1)))) := by
  unfold attemptRun
  cases hrequest : RunRequest.ofJson? run.request with
  | none => exact Returning.exit _
  | some request =>
    change Sends _ _ g (chooseExecution request earlier >>= _) _
    match earlier, existing, h with
    | none, none, hnone =>
      have hlength : ∀ {g' : Sending}, g'.requests = [] →
          g'.requests.length = g.requests.length := by
        intro g' hg'
        rw [hg', show g.requests = [] from hnone]
      refine Returning.bind ((chooseExecution_aside _ _).returning hnone)
        fun g₁ chosen h₁ => ?_
      refine Returning.bind ((startAttempt_aside _ _).returning h₁)
        fun g₂ attemptId h₂ => ?_
      refine Returning.bind ((enterInput_aside _ _).returning h₂)
        fun g₃ _ h₃ => ?_
      refine Returning.bind ((execution_aside _ _ _).returning h₃)
        fun g₄ execution h₄ => ?_
      refine Returning.bind (checkSize_sends execution.body) ?_
      rintro g₅ _ rfl
      have hopen : Sends sessionId run.runId g₅ (openAssistantMessage sessionId none)
          (Returning fun g' _ => g'.requests = []) := by
        refine sends_query rfl fun messageId => ?_
        refine Returning.bind (Returning.orFail ((append_keeps _).mono ?_))
          fun g' _ h' => Returning.ret h'
        exact fun g' _ hg' _ _ => hg'.trans h₄
      refine Returning.bind hopen fun g₆ messageId h₆ => ?_
      refine Returning.bind (buildRequest_sends execution.body) ?_
      rintro g₇ _ rfl
      have hready : Ready sessionId run execution.body g₇ :=
        ⟨by simp [h₆], fun hne => absurd h₆ hne⟩
      have hend := @attempt_sends sessionId run g₇ execution.body left attemptId messageId
        execution.provider hready (by rw [hlength h₆]; exact hmost)
      rw [hlength h₆] at hend
      exact hend
    | some execution, some messageId, ⟨hsent, hsame, attemptId, error, stored, hsince⟩ =>
      -- what the attempt before built and opened is used again
      have hstart : Sends sessionId run.runId g (startAttempt sessionId run left)
          (Returning fun g' _ => g'.requests = g.requests ∧
            Retried sessionId run.runId g'.since) := by
        unfold startAttempt
        rw [if_neg (hleft rfl)]
        refine sends_query rfl fun nextAttemptId => ?_
        refine Returning.bind (startedAttempt_sends nextAttemptId _) ?_
        rintro _ _ rfl
        refine Returning.ret ⟨rfl, attemptId, error, stored, nextAttemptId,
          run.attempts + (maxRetries - left), ?_⟩
        rw [hsince]
        rfl
      change Sends _ _ g (startAttempt sessionId run left >>= _) _
      refine Returning.bind hstart fun g₁ attemptId' h₁ => ?_
      have henter : enterInput sessionId run request (some messageId) = Program.ret () :=
        if_neg (by simp)
      rw [henter]
      change Sends _ _ g₁ (checkSize execution.body >>= _) _
      refine Returning.bind (checkSize_sends execution.body) ?_
      rintro g₂ _ rfl
      change Sends _ _ g₂ (buildRequest execution.body >>= _) _
      refine Returning.bind (buildRequest_sends execution.body) ?_
      rintro g₃ _ rfl
      have hready : Ready sessionId run execution.body g₃ :=
        ⟨by rw [h₁.1]; exact hsame, fun _ => h₁.2⟩
      have hend := @attempt_sends sessionId run g₃ execution.body left attemptId' messageId
        execution.provider hready (by rw [h₁.1]; exact hmost)
      rw [h₁.1] at hend
      exact hend

theorem le_maxRequests (left : Nat) : left + 1 ≤ maxRequests left := by
  cases left with
  | zero => exact Nat.le_refl _
  | succ left =>
    rw [maxRequests]
    omega

theorem executeAttempts_sends (left : Nat) {earlier : Option RunExecution}
    {existing : Option String} (h : Pending sessionId run g earlier existing)
    (hleft : earlier.isSome = true → left < maxRetries) (hle : left ≤ maxRetries)
    (hmost : g.requests.length + maxRequests left ≤ maxRequests maxRetries) :
    Sends sessionId run.runId g (executeAttempts sessionId run earlier existing left)
      (Returning fun _ _ => True) := by
  induction left generalizing g earlier existing with
  | zero =>
    unfold executeAttempts
    refine Returning.bind (attemptRun_sends h (fun hsome => (hleft hsome).ne) hmost)
      fun g' a ha => ?_
    cases houtcome : a.state.outcome with
    | failed error retryable =>
      cases retryable with
      | false => exact Returning.ret trivial
      | true =>
        exact sends_query rfl fun shutdown =>
          iteInduction (fun _ => Returning.ret trivial) fun _ => Returning.ret trivial
    | completed | completedWithUsage | cancelled | interrupted | requiresAction =>
      exact Returning.ret trivial
  | succ left ih =>
    unfold executeAttempts
    have hfits := le_maxRequests (left + 1)
    refine Returning.bind (attemptRun_sends h (fun hsome => (hleft hsome).ne) (by omega))
      fun g' a ha => ?_
    cases houtcome : a.state.outcome with
    | failed error retryable =>
      cases retryable with
      | false => exact Returning.ret trivial
      | true =>
        refine sends_query rfl fun shutdown => iteInduction (fun _ => Returning.ret trivial) fun _ => ?_
        refine Returning.bind (Returning.orFail (recordFailedAttempt_sends a.attemptId error)) ?_
        rintro _ _ ⟨stored, rfl⟩
        refine sends_query rfl fun shutdown => iteInduction (fun _ => Returning.ret trivial) fun _ => ?_
        have hlength := ha.sent.most
        have hnext : maxRequests (left + 1) = maxRequests left + (left + 2) := rfl
        refine @ih _ (some a.execution) (some a.assistantMessageId)
          ⟨ha.sent.sent, ha.sent.same, a.attemptId, error, stored, ?_⟩ (fun _ => hle)
          (Nat.le_of_succ_le hle) ?_
        · rw [ha.again error houtcome, List.nil_append]
        · simp only
          omega
    | completed | completedWithUsage | cancelled | interrupted | requiresAction =>
      exact Returning.ret trivial

/-- An execution may be given up before any of its operations. -/
theorem withTimeout_sends {α : Type} {p : ServerProgram α}
    (h : Sends sessionId run.runId g p fun _ _ => True) :
    Sends sessionId run.runId g (withTimeout p) fun _ _ => True := by
  induction p generalizing g with
  | ret a => trivial
  | fail e => trivial
  | call op k ih =>
    refine ⟨sendingAllows_of_none rfl, fun late => ?_⟩
    rw [@sendingNext_of_unnoted g (.external .timedOut) rfl late rfl]
    cases late with
    | true => trivial
    | false => exact ⟨h.1, fun r => ih r (h.2 r)⟩

theorem executeRun_sends (run : RunProjection) :
    Sends sessionId run.runId .start (executeRunWithChildTimeout sessionId run) fun _ _ => True := by
  have hexecute : Sends sessionId run.runId .start (executeRun sessionId run) fun _ _ => True :=
    Program.Follows.recover (executeAttempts_sends maxRetries rfl nofun le_rfl le_rfl)
      (fun _ _ _ => trivial) fun _ _ _ => trivial
  refine (childBudget_silent sessionId).attempt.sends fun budget => ?_
  rcases budget with e | (_ | budget)
  · trivial
  · exact hexecute
  · refine (withTimeout_sends hexecute).bind ?_ fun _ _ _ => trivial
    rintro g' (_ | result) -
    · exact ⟨sendingAllows_of_none rfl, fun _ => trivial⟩
    · trivial

end Execute

/-- In a program that follows a protocol each operation is allowed in the ghost state that the ones
before it lead to. -/
theorem Program.Follows.at_call {S : Signature} {ε α A : Type} {allows : A → S.Op → Prop}
    {next : A → (op : S.Op) → S.Reply op → A} {σ : Type}
    {handle : (op : S.Op) → σ → S.Reply op × σ} {Q : A → Except ε α → Prop} {p : Program S ε α}
    {a : A} {s : σ} (h : p.Follows allows next Q a) {pre post : List (σ × S.Op)} {c : σ × S.Op}
    (hcalls : p.calls handle s = pre ++ c :: post) :
    allows (pre.foldl (fun b c => next b c.2 (handle c.2 c.1).1) a) c.2 := by
  induction p generalizing a s pre with
  | ret x => simp [Program.calls] at hcalls
  | fail e => simp [Program.calls] at hcalls
  | call op k ih =>
    cases pre with
    | nil =>
      cases hcalls
      exact h.1
    | cons d pre =>
      obtain ⟨rfl, hrest⟩ := List.cons.inj hcalls
      exact ih _ (h.2 _) hrest

/-! ## The requests of a run -/

section Calls

variable {σ : Type}

/-- The requests among some operations. -/
def requests (calls : List (σ × ServerOp)) : List (String × Json) :=
  calls.filterMap (·.2.request?)

/-- What some operations append. -/
def appended (handle : (op : ServerOp) → σ → op.Reply × σ) (calls : List (σ × ServerOp)) :
    List Appending :=
  calls.filterMap fun c => c.2.appending? (handle c.2 c.1).1

/-- What has been noted after some operations. -/
def noted (handle : (op : ServerOp) → σ → op.Reply × σ) (calls : List (σ × ServerOp))
    (g : Sending) : Sending :=
  calls.foldl (fun g c => sendingNext g c.2 (handle c.2 c.1).1) g

variable {handle : (op : ServerOp) → σ → op.Reply × σ}

theorem noted_requests (calls : List (σ × ServerOp)) (g : Sending) :
    (noted handle calls g).requests = g.requests ++ requests calls := by
  induction calls generalizing g with
  | nil => exact (List.append_nil _).symm
  | cons c calls ih =>
    rw [noted, List.foldl_cons, ← noted, ih, sendingNext, requests, requests, List.filterMap_cons]
    cases c.2.request? with
    | none => rfl
    | some request => simp only [List.append_assoc, List.singleton_append]

/-- Without another request everything appended is noted. -/
theorem noted_since {calls : List (σ × ServerOp)} (hnone : requests calls = []) (g : Sending) :
    (noted handle calls g).since = g.since ++ appended handle calls := by
  induction calls generalizing g with
  | nil => exact (List.append_nil _).symm
  | cons c calls ih =>
    rw [requests, List.filterMap_cons] at hnone
    cases hrequest : c.2.request? with
    | some request =>
      rw [hrequest] at hnone
      cases hnone
    | none =>
      rw [hrequest] at hnone
      rw [noted, List.foldl_cons, ← noted, ih hnone, sendingNext_of_none hrequest, appended,
        appended, List.filterMap_cons]
      cases c.2.appending? (handle c.2 c.1).1 with
      | none => simp
      | some appending => simp

theorem noted_append (calls calls' : List (σ × ServerOp)) (g : Sending) :
    noted handle (calls ++ calls') g = noted handle calls' (noted handle calls g) :=
  List.foldl_append

/-- After a request and no other one, what was appended behind it is noted. -/
theorem noted_since_request {pre mid : List (σ × ServerOp)} {c : σ × ServerOp}
    (hc : c.2.request?.isSome = true) (hnone : requests mid = []) (g : Sending) :
    (noted handle (pre ++ c :: mid) g).since = appended handle mid := by
  obtain ⟨request, hrequest⟩ := Option.isSome_iff_exists.mp hc
  rw [noted_append, noted, List.foldl_cons, ← noted, noted_since hnone, sendingNext, hrequest,
    List.nil_append]

/-- The last request among some operations. -/
theorem exists_last_request {calls : List (σ × ServerOp)} (h : requests calls ≠ []) :
    ∃ pre c request post, calls = pre ++ c :: post ∧ c.2.request? = some request ∧
      requests calls = requests pre ++ [request] := by
  induction calls with
  | nil => exact absurd rfl h
  | cons c calls ih =>
    by_cases hnone : requests calls = []
    · cases hrequest : c.2.request? with
      | some request =>
        refine ⟨[], c, request, calls, rfl, hrequest, ?_⟩
        rw [requests, List.filterMap_cons, hrequest, ← requests, hnone]
        rfl
      | none =>
        rw [requests, List.filterMap_cons, hrequest] at h
        exact absurd hnone h
    · obtain ⟨pre, c', request, post, rfl, hc', hpre⟩ := ih hnone
      refine ⟨c :: pre, c', request, post, rfl, hc', ?_⟩
      rw [requests, List.filterMap_cons, ← requests, hpre, requests, requests, List.filterMap_cons]
      cases c.2.request? <;> rfl

/-- **The requests of a run.** Whatever is replied, executing a run sends at most 21 requests, all of
them for the run and with the same body. Between two of them nothing is appended but the failure of
the attempt, and the start of another one, which is stored: a run never sends again once something
of a response has been recorded. -/
theorem requests_bounded (handle : (op : ServerOp) → σ → op.Reply × σ) (s : σ) (sessionId : String)
    (run : RunProjection) :
    let calls := (executeRunWithChildTimeout sessionId run).calls handle s
    (requests calls).length ≤ 21 ∧
      (∃ body, ∀ request ∈ requests calls, request = (run.runId, body)) ∧
      ∀ pre c mid c' post, calls = pre ++ c :: mid ++ c' :: post → c.2.request?.isSome = true →
        requests mid = [] → c'.2.request?.isSome = true →
        Retried sessionId run.runId (appended handle mid) := by
  intro calls
  have hfollows := @executeRun_sends sessionId run
  have hat : ∀ pre c post request, calls = pre ++ c :: post → c.2.request? = some request →
      request.1 = run.runId ∧ (requests pre).length < 21 ∧
        (∀ earlier ∈ requests pre, earlier = request) ∧
        (requests pre ≠ [] → Retried sessionId run.runId (noted handle pre .start).since) := by
    intro pre c post request hcalls hrequest
    have h := Program.Follows.at_call hfollows hcalls request hrequest
    change (_ ∧ (noted handle pre .start).requests.length < _ ∧ (∀ earlier ∈
      (noted handle pre .start).requests, _) ∧ ((noted handle pre .start).requests ≠ [] → _)) at h
    rw [noted_requests] at h
    exact h
  refine ⟨?_, ?_, ?_⟩
  · by_cases hnone : requests calls = []
    · rw [hnone]
      exact Nat.zero_le _
    · obtain ⟨pre, c, request, post, hcalls, hrequest, hpre⟩ := exists_last_request hnone
      obtain ⟨-, hlt, -⟩ := hat pre c post request hcalls hrequest
      rw [hpre, List.length_append, List.length_singleton]
      exact hlt
  · by_cases hnone : requests calls = []
    · exact ⟨.null, by simp [hnone]⟩
    · obtain ⟨pre, c, request, post, hcalls, hrequest, hpre⟩ := exists_last_request hnone
      obtain ⟨hrun, -, hsame, -⟩ := hat pre c post request hcalls hrequest
      have hpair : request = (run.runId, request.2) := Prod.ext hrun rfl
      refine ⟨request.2, fun earlier hearlier => ?_⟩
      rw [hpre, List.mem_append, List.mem_singleton] at hearlier
      rcases hearlier with hearlier | rfl
      · rw [hsame earlier hearlier]
        exact hpair
      · exact hpair
  · intro pre c mid c' post hcalls hc hmid hc'
    obtain ⟨request, hrequest⟩ := Option.isSome_iff_exists.mp hc
    obtain ⟨request', hrequest'⟩ := Option.isSome_iff_exists.mp hc'
    obtain ⟨-, -, -, hretried⟩ := hat (pre ++ c :: mid) c' post request' hcalls hrequest'
    rw [noted_since_request hc hmid] at hretried
    refine hretried ?_
    simp [requests, hrequest]

end Calls

/-- A provider that cannot be reached as often as it is tried again, and whose stream breaks when it
can; the state counts the requests. -/
def unreliable : (op : ServerOp) → World × Nat → op.Reply × (World × Nat)
  | .external (.send _ _), (w, n) =>
    (if n ∈ [5, 10, 14, 17, 19, 20] then
        .response ⟨"200 OK", true, [.broken "reset"], .text (.ok [])⟩ else .failed "refused",
      (w, n + 1))
  | op, (w, n) =>
    let r := World.handle (.plain oneProvider) op w
    (r.1, (r.2, n))

theorem requests_bounded_unreliable :
    let calls := (executeRunWithChildTimeout "s" greetingRun).calls unreliable (greetingWorld, 0)
    (requests calls).length = 21 ∧ (requests calls).length ≤ 21 :=
  ⟨by decide +kernel, (requests_bounded unreliable (greetingWorld, 0) "s" greetingRun).1⟩

end Piqo
