import PiqoServer.Server.Reception

/-!
# What an execution records of its responses

A response of which text or a call came is the last one of the execution, and what is recorded is
what came of it.

## Main definitions

* `Transcribed`: what has been recorded of a response
* `Journal.Before`, `Journal.Ends`: the journal before an attempt, and at the end
* `executionJournal`: the journal of an execution against any server

## Main results

* `attemptRun_journal`: an attempt that is worth another one has brought nothing
* `executeRun_journal`: what an execution records of its last response
* `executeRun_text`: the text of the message is that of the last response
-/

namespace Piqo

/-! ## A response -/

/-- A run that is neither cancelled nor interrupted. -/
def ExecutionResult.settled : ExecutionResult → Bool
  | .cancelled | .interrupted => false
  | _ => true

def TurnExit.settled : TurnExit → Bool
  | .result r => r.settled
  | .panicked => true

/-- What has been recorded of a response: of a part of it, or of all of it where the run settles
and nothing failed. -/
structure Transcribed (heard : List ProviderDelta) (settled : Bool) (j : Journal) : Prop where
  exists_read : ∃ deltas, deltas <+: heard ∧ Notes (collect deltas).1 j ∧
    (settled = true → j.faulted = false → deltas = heard ∧ j.text = joinText deltas)

section Response

variable {sessionId runId messageId : String} {j : Journal}

/-- The rest of the text is recorded. -/
theorem flushRest_journal (hmessage : j.message = some messageId) {st : StreamState}
    {deltas : List ProviderDelta} (h : Reads deltas j st) :
    Leaves j (flushRest sessionId runId messageId st) fun j' x => j.Onward j' ∧
      Notes (collect deltas).1 j' ∧ match x with
        | .ok _ => j'.faulted = false → j'.text = joinText deltas
        | .error _ => j'.faulted = true := by
  unfold flushRest
  refine iteInduction (fun hempty => ⟨.refl j, h.notes, fun hclear => ?_⟩) fun _ => ?_
  · have hbuffer : st.textBuffer = "" := by simpa using hempty
    rw [← h.text hclear, hbuffer, String.append_empty]
  have hpersist := @persistDelta_journal sessionId runId _ _ hmessage (.text st.textBuffer)
  refine Program.Follows.bind (Q := fun j' x => j.Onward j' ∧ Notes (collect deltas).1 j' ∧
    match x with
      | .ok _ => j'.faulted = false → j'.text = joinText deltas
      | .error _ => j'.faulted = true) (Program.Follows.recover hpersist ?_ ?_) ?_ ?_
  · intro j' r hr
    refine ⟨hr.onward, hr.calls _ h.notes, fun hclear => ?_⟩
    rw [hr.text]
    exact h.text (hr.onward.clear hclear)
  · intro j' e he
    exact ⟨he.onward, he.calls _ h.notes, (he.error e rfl).resolve_right Bool.false_ne_true⟩
  · exact fun j' r h' => h'
  · exact fun j' e h' => h'

theorem readResponse_journal (hmessage : j.message = some messageId) (hcalls : j.calls = [])
    (htext : j.faulted = false → j.text = "") (body : Json) (response : ProviderResponse) :
    Leaves j (readResponse sessionId runId messageId body response) fun j' x => j.Onward j' ∧
      match x with
      | .ok st => Transcribed (received body response) true j' ∧
          ∀ e, st.outcome = .failed e true →
            (received body response).any ProviderDelta.isContent = false
      | .error x => Transcribed (received body response) x.settled j' := by
  unfold readResponse checkStatus
  cases hsuccess : response.success with
  | false =>
    refine ⟨.refl j, [], List.nil_prefix, .nil hcalls, fun _ hclear => ?_⟩
    simp [received, hsuccess, htext hclear, joinText]
  | true =>
    have hbody : Leaves j (readBody sessionId runId messageId body response)
        (ReadingEnds [] (received body response) j) := by
      unfold readBody received
      simp only [hsuccess, Bool.not_true, Bool.false_eq_true, ↓reduceIte]
      cases bodyStreamMode body with
      | true => exact readStream_journal hmessage hcalls htext response.stream
      | false => exact readText_journal hmessage hcalls htext response.text
    refine hbody.bind ?_ ?_
    · rintro j₁ st ⟨honward, deltas, hprefix, hreads, hall, hretry⟩
      rw [List.nil_append] at hreads
      refine (flushRest_journal (honward.message.trans hmessage) hreads).bind ?_ ?_
      · rintro j' _ ⟨honward', hnotes, htext'⟩
        refine ⟨honward.trans honward', ⟨deltas, hprefix, hnotes, fun _ hclear =>
          ⟨hall (honward'.clear hclear), htext' hclear⟩⟩, fun e he => ?_⟩
        obtain ⟨hdeltas, hquiet⟩ := hretry e he
        rw [← hdeltas]
        exact hquiet
      · rintro j' x ⟨honward', hnotes, hfaulted⟩
        refine ⟨honward.trans honward', deltas, hprefix, hnotes, fun _ hclear => ?_⟩
        rw [hfaulted] at hclear
        cases hclear
    · rintro j' x ⟨honward, hx, deltas, hprefix, hnotes⟩
      refine ⟨honward, deltas, hprefix, hnotes, fun hsettled => ?_⟩
      rcases hx with rfl | rfl <;> cases hsettled

end Response

/-! ## The attempts -/

/-- The execution before an attempt: nothing has come of the responses so far. -/
structure Journal.Before (j : Journal) (existing : Option String) : Prop where
  message : j.message = existing
  calls : j.calls = []
  text : j.faulted = false → j.text = ""
  retried : ∀ answer ∈ j.responses, Contentless answer

/-- The pieces that are read of the last response. -/
def Journal.heard (j : Journal) : List ProviderDelta :=
  (j.responses.getLast?.map fun answer => received answer.1 answer.2).getD []

/-- The execution at its end: only of the last response came text or calls, and they are recorded. -/
structure Journal.Ends (j : Journal) (settled : Bool) : Prop where
  retried : ∀ answer ∈ j.responses.dropLast, Contentless answer
  transcribed : Transcribed j.heard settled j

section Attempts

variable {sessionId : String} {run : RunProjection} {j j' : Journal} {existing : Option String}

theorem Journal.Before.aside (h : j.Before existing) (haside : j.Aside j') : j'.Before existing where
  message := haside.message.trans h.message
  calls := haside.calls.trans h.calls
  text hclear := haside.text.trans (h.text (haside.onward.clear hclear))
  retried := by
    rw [haside.responses]
    exact h.retried

/-- An execution that ends without a further response. -/
theorem Journal.Before.ends (h : j.Before existing) (settled : Bool) : j.Ends settled := by
  have hquiet : j.heard.any ProviderDelta.isContent = false := by
    unfold Journal.heard
    cases hlast : j.responses.getLast? with
    | none => rfl
    | some answer => exact h.retried answer (List.mem_of_getLast? hlast)
  refine ⟨fun answer hanswer => h.retried answer (List.dropLast_subset _ hanswer), j.heard,
    List.prefix_rfl, ?_, fun _ hclear => ⟨rfl, ?_⟩⟩
  · rw [collect_of_quiet hquiet]
    exact .nil h.calls
  · rw [h.text hclear, joinText_of_quiet hquiet]

/-- A part of an attempt that brings no response. -/
theorem Journal.Before.preparing {α β : Type} (h : j.Before existing) {p : TurnProgram α}
    (hp : Piqo.Aside existing p) {f : α → TurnProgram β} {Q : Journal → Except TurnExit β → Prop}
    (hok : ∀ j' a, j'.Before existing → Leaves j' (f a) Q)
    (herror : ∀ j' x, j'.Ends x.settled → Q j' (.error x)) : Leaves j (p >>= f) Q := by
  rw [← h.message] at hp
  exact hp.followed (fun j' a haside => hok j' a (h.aside haside))
    fun j' x haside => herror j' x ((h.aside haside).ends _)

theorem openAssistantMessage_journal (h : j.Before existing) :
    Leaves j (openAssistantMessage sessionId existing) fun j' x => match x with
      | .ok messageId => j'.Before (some messageId)
      | .error x => j'.Ends x.settled := by
  cases existing with
  | some messageId => exact h
  | none =>
    refine ⟨trivial, fun messageId => ?_⟩
    have hdrawn := h.aside (j.drawn_next messageId)
    change Leaves _ (orFail (append sessionId _) >>= fun _ => Program.ret messageId) _
    have hopened : Leaves { j with drawn := j.drawn ++ [messageId] }
        (append sessionId (.messageStarted messageId "assistant" .assistant (.agent "assistant"))) fun j' x =>
          (∀ record, x = .ok record → j'.Before (some messageId)) ∧
            ∀ e, x = .error e → ∀ settled, j'.Ends settled := by
      rw [← Program.bind_ret (append sessionId _)]
      refine leaves_append (fun _ => ⟨fun _ _ => ?_, by simp⟩) fun e => ⟨by simp, fun _ _ settled => ?_⟩
      · exact ⟨rfl, hdrawn.calls, hdrawn.text, hdrawn.retried⟩
      · refine @Journal.Before.ends _ (some messageId) ?_ settled
        exact ⟨rfl, hdrawn.calls, by simp, hdrawn.retried⟩
    change Leaves _ (orFail (append sessionId _) >>= fun _ => Program.ret messageId) _
    refine Program.Follows.bind (Q := fun j' x => (∀ record, x = .ok record →
      j'.Before (some messageId)) ∧ ∀ e, x = .error e → ∀ settled, j'.Ends settled)
      (Program.Follows.recover hopened ?_ ?_) ?_ ?_
    · exact fun j' record h' => ⟨fun _ _ => h'.1 record rfl, by simp⟩
    · exact fun j' e h' => ⟨by simp, fun _ _ => h'.2 e rfl⟩
    · exact fun j' record h' => h'.1 record rfl
    · exact fun j' x h' => h'.2 x rfl _

/-- The request is answered. -/
theorem sendRequest_journal {messageId : String} (h : j.Before (some messageId)) (body : Json)
    (left : Nat) (attemptId : String) :
    Leaves j (sendRequest sessionId run body left attemptId) fun j' x => match x with
      | .ok v => ∃ j₁ : Journal, j₁.Before (some messageId) ∧
          j' = { j₁ with responses := j₁.responses ++ [(body, v.1)] }
      | .error x => j'.Ends x.settled := by
  induction left generalizing j attemptId with
  | zero =>
    unfold sendRequest
    refine ⟨trivial, fun reply => ?_⟩
    cases reply with
    | cancelled => exact h.ends _
    | shutdown => exact h.ends _
    | failed error => exact h.ends _
    | response response => exact ⟨j, h, rfl⟩
  | succ left ih =>
    unfold sendRequest
    refine ⟨trivial, fun reply => ?_⟩
    cases reply with
    | cancelled => exact h.ends _
    | shutdown => exact h.ends _
    | response response => exact ⟨j, h, rfl⟩
    | failed error =>
      refine h.preparing (.orFail (recordFailedAttempt_aside _ _ _)) (fun j₁ _ h₁ => ?_)
        fun _ _ h' => h'
      refine ⟨trivial, fun nextAttemptId => ?_⟩
      refine (h₁.aside (j₁.drawn_next nextAttemptId)).preparing (.orFail (.append rfl))
        (fun j₂ _ h₂ => ?_) fun _ _ h' => h'
      refine ⟨trivial, fun shutdown => ?_⟩
      cases shutdown with
      | true => exact h₂.ends _
      | false => exact ih h₂ nextAttemptId

/-- An attempt that is worth another one has brought nothing. -/
theorem attemptRun_journal (h : j.Before existing) (earlier : Option RunExecution) (left : Nat) :
    Leaves j (attemptRun sessionId run earlier existing left) fun j' x => match x with
      | .ok a => j'.Ends true ∧ ∀ e, a.state.outcome = .failed e true →
          j'.Before (some a.assistantMessageId)
      | .error x => j'.Ends x.settled := by
  unfold attemptRun
  refine h.preparing (.orFail ((Silent.expect _ _).aside _)) (fun j₁ request h₁ => ?_)
    fun _ _ h' => h'
  refine h₁.preparing (chooseExecution_aside request earlier) (fun j₂ chosen h₂ => ?_)
    fun _ _ h' => h'
  refine h₂.preparing (startAttempt_aside run left) (fun j₃ attemptId h₃ => ?_) fun _ _ h' => h'
  refine h₃.preparing (enterInput_aside run request) (fun j₄ _ h₄ => ?_) fun _ _ h' => h'
  refine h₄.preparing (execution_aside run request chosen) (fun j₅ execution h₅ => ?_)
    fun _ _ h' => h'
  refine h₅.preparing (checkSize_aside execution.body) (fun j₆ _ h₆ => ?_) fun _ _ h' => h'
  refine (openAssistantMessage_journal h₆).bind ?_ fun _ _ h' => h'
  intro j₇ messageId h₇
  refine h₇.preparing (buildRequest_aside execution.body) (fun j₈ _ h₈ => ?_) fun _ _ h' => h'
  refine (sendRequest_journal h₈ execution.body left attemptId).bind ?_ fun _ _ h' => h'
  rintro j₁₀ ⟨response, attemptId'⟩ ⟨j₉, h₉, hj₁₀⟩
  have hresponses : j₁₀.responses = j₉.responses ++ [(execution.body, response)] := by rw [hj₁₀]
  have hheard : ∀ j' : Journal, j'.responses = j₉.responses ++ [(execution.body, response)] →
      j'.heard = received execution.body response := by
    intro j' hresponses
    simp [Journal.heard, hresponses]
  have hretried : ∀ j' : Journal, j'.responses = j₉.responses ++ [(execution.body, response)] →
      ∀ answer ∈ j'.responses.dropLast, Contentless answer := by
    intro j' hresponses answer hanswer
    rw [hresponses, List.dropLast_concat] at hanswer
    exact h₉.retried answer hanswer
  refine (@readResponse_journal _ _ messageId j₁₀ (by rw [hj₁₀, h₉.message])
    (by rw [hj₁₀, h₉.calls]) (by rw [hj₁₀]; exact h₉.text) execution.body response).bind ?_ ?_
  · rintro j' st ⟨honward, htranscribed, hretry⟩
    refine ⟨⟨hretried j' (honward.responses.trans hresponses), ?_⟩, fun e he => ?_⟩
    · rw [hheard j' (honward.responses.trans hresponses)]
      exact htranscribed
    · have hquiet := hretry e he
      obtain ⟨deltas, hprefix, hnotes, hall⟩ := htranscribed.exists_read
      have hnone : deltas.any ProviderDelta.isContent = false := by
        obtain ⟨rest, hrest⟩ := hprefix
        rw [← hrest, List.any_append, Bool.or_eq_false_iff] at hquiet
        exact hquiet.1
      rw [collect_of_quiet hnone] at hnotes
      refine ⟨honward.message.trans (by rw [hj₁₀, h₉.message]), hnotes.calls_eq_nil, fun hclear => ?_, ?_⟩
      · rw [(hall rfl hclear).2, joinText_of_quiet hnone]
      · rw [honward.responses, hresponses]
        exact List.forall_mem_append.mpr ⟨h₉.retried, by simpa [Contentless] using hquiet⟩
  · rintro j' x ⟨honward, htranscribed⟩
    refine ⟨hretried j' (honward.responses.trans hresponses), ?_⟩
    rw [hheard j' (honward.responses.trans hresponses)]
    exact htranscribed

theorem Journal.Ends.unsettled (h : j.Ends true) (settled : Bool) : j.Ends settled := by
  obtain ⟨deltas, hprefix, hnotes, hall⟩ := h.transcribed.exists_read
  exact ⟨h.retried, deltas, hprefix, hnotes, fun _ => hall rfl⟩

theorem executeAttempts_journal (h : j.Before existing) (earlier : Option RunExecution)
    (left : Nat) :
    Leaves j (executeAttempts sessionId run earlier existing left) fun j' x => match x with
      | .ok result => j'.Ends result.settled
      | .error x => j'.Ends x.settled := by
  induction left generalizing j earlier existing with
  | zero =>
    unfold executeAttempts
    refine (attemptRun_journal h earlier 0).bind ?_ fun _ _ h' => h'
    rintro j' a ⟨hends, hretry⟩
    split
    · refine ⟨trivial, fun shutdown => ?_⟩
      cases shutdown <;> exact hends.unsettled _
    · exact hends.unsettled _
    · exact hends.unsettled _
  | succ left ih =>
    unfold executeAttempts
    refine (attemptRun_journal h earlier (left + 1)).bind ?_ fun _ _ h' => h'
    rintro j₁ a ⟨hends, hretry⟩
    split
    · next error houtcome =>
      refine ⟨trivial, fun shutdown => ?_⟩
      cases shutdown with
      | true => exact hends.unsettled _
      | false =>
        refine (hretry error houtcome).preparing (.orFail (recordFailedAttempt_aside _ _ _))
          (fun j₂ _ h₂ => ?_) fun _ _ h' => h'
        refine ⟨trivial, fun shutdown => ?_⟩
        cases shutdown with
        | true => exact h₂.ends _
        | false => exact ih h₂ _
    · exact hends.unsettled _
    · exact hends.unsettled _

/-- **What an execution records.** Only of the last response came text or calls; what is recorded is
what came of it, all of it where the run settles and no append failed. -/
theorem executeRun_journal (sessionId : String) (run : RunProjection) :
    Leaves {} (executeRun sessionId run) fun j x => match x with
      | .ok result => j.Ends result.settled
      | .error _ => j.Ends true := by
  have hstart : Journal.Before {} none := ⟨rfl, rfl, fun _ => rfl, by simp⟩
  refine Program.Follows.recover (executeAttempts_journal hstart none maxRetries)
    (fun j' result h => h) ?_
  intro j' x h
  cases x with
  | result result => exact h
  | panicked => exact h

end Attempts

/-- What an execution of a run has received and recorded, against any server: whatever else happens
between its operations, and whatever is replied to them. -/
def executionJournal {σ : Type} (handle : (op : ServerOp) → σ → op.Reply × σ) (sessionId : String)
    (run : RunProjection) (s : σ) : Journal :=
  (executeRun sessionId run).track journalNext handle {} s

/-- **Streamed text is neither lost nor duplicated.** Whatever the ticks, the readings of the clock
and the attempts: the text of the message is that of the pieces of the last response, and a
response of which text or a call came is the last one. -/
theorem executeRun_text {σ : Type} (handle : (op : ServerOp) → σ → op.Reply × σ)
    (sessionId : String) (run : RunProjection) (s : σ) :
    let j := executionJournal handle sessionId run s
    (∀ answer ∈ j.responses.dropLast, Contentless answer) ∧
    ∀ result, ((executeRun sessionId run).run handle s).1 = .ok result → result.settled = true →
      j.faulted = false → j.text = joinText j.heard := by
  have hends := Program.Follows.track (executeRun_journal sessionId run) handle s
  dsimp only
  change match ((executeRun sessionId run).run handle s).1 with
    | .ok result => (executionJournal handle sessionId run s).Ends result.settled
    | .error _ => (executionJournal handle sessionId run s).Ends true at hends
  cases hrun : ((executeRun sessionId run).run handle s).1 with
  | error e =>
    rw [hrun] at hends
    exact ⟨hends.retried, by simp⟩
  | ok result =>
    rw [hrun] at hends
    refine ⟨hends.retried, ?_⟩
    rintro _ heq hsettled hclear
    cases heq
    obtain ⟨deltas, -, -, hall⟩ := hends.transcribed.exists_read
    obtain ⟨rfl, htext⟩ := hall hsettled hclear
    exact htext

/-! ## A stream that breaks once -/

def greetingRequest : RunRequest where
  provider := "p"
  model := "m"
  input := .str "hi"
  agent := none
  variant := none
  body := .obj []

/-- A run that has been started. -/
def greetingRun : RunProjection where
  runId := "r"
  retryOf := none
  provider := "p"
  model := "m"
  request := greetingRequest.toJson
  status := .running
  attemptId := some "a"
  attempts := 1
  error := none
  usage := none
  queuePriority := 0
  toolCalls := ∅

def greetingWorld : World := .holding [.runQueued "r" none "p" "m" greetingRequest.toJson,
  .sessionPhaseChanged .created .running none, .runStarted "r" "a" 1]

/-- A provider whose first stream breaks; the second one sends `hello` in two pieces, with a tick
between them. -/
def brokenOnce : Surroundings where
  answer n
    | .send _ _ => .response ⟨"200 OK", true,
        if n < 25 then [.tick, .broken "reset"]
        else [.chunk [.ok [.text "hel"]], .tick, .chunk [.ok [.text "lo", .completed]]], .text (.ok [])⟩
    | op => (Surroundings.plain oneProvider).answer n op
  stamp _ _ _ := "t1"

def greetingJournal : Journal := executionJournal (World.handle brokenOnce) "s" greetingRun greetingWorld

theorem executeRun_text_brokenOnce :
    greetingJournal.responses.length = 2 ∧ greetingJournal.text = joinText greetingJournal.heard ∧
      greetingJournal.text = "hello" := by
  have hrun : (((executeRun "s" greetingRun).run (World.handle brokenOnce) greetingWorld).1.toOption) =
      some (.completedWithUsage none) := by decide +kernel
  have htext := (executeRun_text (World.handle brokenOnce) "s" greetingRun greetingWorld).2
    (.completedWithUsage none) (Except.toOption_eq_some.mp hrun) rfl (by decide +kernel)
  exact ⟨by decide +kernel, htext, by decide +kernel⟩

end Piqo
