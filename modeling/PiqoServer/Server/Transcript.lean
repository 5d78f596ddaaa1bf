import PiqoServer.Core.History
import PiqoServer.Library.Placement
import PiqoServer.Server.Body

/-!
# The transcript of a request

`build_body` (`piqo-server/src/supervisor.rs`) rebuilds the conversation for every request. The
messages that are closed and not covered by the active summary are rendered behind the agent's
instructions and the summary. For Chat Completions the calls of an assistant's message are put into
its entry, which is looked up by the position of the message among all closed messages. The results,
and for Responses the calls too, stand behind all messages.

## Main definitions

* `attachedTranscript`: the transcript with every call in the entry of its message
* `SessionProjection.CallsAligned`: where the positions are those of the entries
* `chatItems`, `responsesItems`: what the entries render, with the events that record it
* `SessionProjection.ResultsLast`, `SessionProjection.CallsLast`: where results and calls come last

## Main results

* `tool_calls_attached_iff`: calls are attached to the right entries exactly where they are aligned
* `transcript_ordered_iff`: the entries stand in the order of their events exactly where results or
  calls come last
-/

namespace Piqo

/-! ## Calls in entries -/

/-- The entries in front of the messages. -/
def frontEntries (p : SessionProjection) (instructions : Option String) :
    List (List (String × Json)) :=
  (instructions.toList.map fun text => transcriptEntry "system" (.str text)) ++
  p.context.activeArtifact.toList.map fun artifact =>
    transcriptEntry "system" (.str
      ("Earlier conversation summary (" ++ artifact.artifactId ++ "): " ++ artifact.summary))

/-- The entry of a message. -/
def messageEntry (message : MessageProjection) : List (String × Json) :=
  transcriptEntry (roleName message.role) (messageContent message.blocks)

/-- A call as the entry of a message has it. -/
def callEntry (call : ToolCallProjection) : Json :=
  .object [("id", .str call.callId), ("type", .str "function"),
    ("function", .object [("name", .str call.toolName), ("arguments", .str call.rawArguments)])]

/-- Add calls to the entry of an assistant's message, where there are any. -/
def attachment (calls : List ToolCallProjection) (message : MessageProjection) :
    Option (List (String × Json) → List (String × Json)) :=
  let own := calls.filter (·.assistantMessageId = message.messageId)
  if message.role ≠ .assistant ∨ own = [] then none
  else some (SortedMap.insertEntry "tool_calls" (.arr (own.map callEntry)))

/-- The results of calls, at the end. -/
def toolEntries (p : SessionProjection) : List Json :=
  (transcriptCalls p).filterMap fun call =>
    call.result.map fun result => .object [
      ("role", .str "tool"), ("tool_call_id", .str call.callId), ("content", .str result.render)]

namespace SessionProjection

/-- The messages that take no more content. -/
def closedMessages (p : SessionProjection) : List MessageProjection := p.messages.filter (·.closed)

/-- The calls of all runs. -/
def allCalls (p : SessionProjection) : List ToolCallProjection :=
  p.runs.values.flatMap (·.toolCalls.values)

/-- The number of messages that the active summary covers. -/
def countCovered (p : SessionProjection) (messages : List MessageProjection) : Nat :=
  messages.countP fun message => !uncovered p.context.activeArtifact message

/-- Every message with calls has the covered messages before it that the entries in front make up
for: what the number of covered messages leaves of these entries, and the covered messages before
the message, are as many as the entries in front. -/
def CallsAligned (p : SessionProjection) (instructions : Option String) : Prop :=
  ∀ before message after, p.closedMessages = before ++ message :: after →
    uncovered p.context.activeArtifact message = true → message.role = .assistant →
    (∃ call ∈ p.allCalls, call.assistantMessageId = message.messageId) →
      (frontEntries p instructions).length - p.countCovered p.closedMessages +
        p.countCovered before = (frontEntries p instructions).length

end SessionProjection

/-- **The transcript with every call in the entry of its message**: the entries in front, the closed
messages that the summary does not cover, those of the assistant with the calls that name them, and
the results. -/
def attachedTranscript (p : SessionProjection) (instructions : Option String) : List Json :=
  (frontEntries p instructions ++
    (p.closedMessages.filter (uncovered p.context.activeArtifact)).map fun message =>
      ((attachment p.allCalls message).getD id) (messageEntry message)).map .obj ++ toolEntries p

section Attach

variable {p : SessionProjection} {instructions : Option String}

theorem attachCalls_eq_placeAt (calls : List ToolCallProjection) (position : Nat)
    (messages : List MessageProjection) (transcript : List (List (String × Json))) :
    attachCalls calls position messages transcript =
      Placement.placeAt (attachment calls) position messages transcript := by
  induction messages generalizing position transcript with
  | nil => rfl
  | cons message messages ih =>
    rw [attachCalls, Placement.placeAt, attachment]
    split
    · exact ih _ _
    · dsimp only
      cases transcript[position]? with
      | none => rfl
      | some entry => exact ih _ _

theorem transcriptMessages_eq_rendered (p : SessionProjection) (instructions : Option String) :
    transcriptMessages p instructions =
      Placement.rendered messageEntry (frontEntries p instructions)
        (uncovered p.context.activeArtifact) p.closedMessages := rfl

/-- The calls of a message that the summary does not cover are all rendered, and those of a covered
one are not. -/
theorem filter_transcriptCalls (hp : p.Distinct) {message : MessageProjection}
    (hmessage : message ∈ p.messages) :
    (transcriptCalls p).filter (·.assistantMessageId = message.messageId) =
      if uncovered p.context.activeArtifact message then
        p.allCalls.filter (·.assistantMessageId = message.messageId) else [] := by
  have hfind : p.messages.find? (·.messageId = message.messageId) = some message := by
    cases hfound : p.messages.find? (·.messageId = message.messageId) with
    | none =>
      have hnone := List.find?_eq_none.mp hfound message hmessage
      simp at hnone
    | some other =>
      have hid : other.messageId = message.messageId := by simpa using List.find?_some hfound
      rw [List.inj_on_of_nodup_map hp.messageIds (List.mem_of_find?_eq_some hfound) hmessage hid]
  rw [transcriptCalls, List.filter_filter, SessionProjection.allCalls]
  split
  · next hun =>
    refine List.filter_congr fun call _ => ?_
    rw [uncovered] at hun
    by_cases hid : call.assistantMessageId = message.messageId
    · rw [hid, hfind]
      simp only [Option.all_some, hun, Bool.and_true]
    · simp [hid]
  · next hcovered =>
    refine List.filter_eq_nil_iff.mpr fun call _ => ?_
    rw [uncovered] at hcovered
    by_cases hid : call.assistantMessageId = message.messageId
    · rw [hid, hfind]
      simp only [Option.all_some, Bool.and_eq_true, not_and]
      exact fun _ => hcovered
    · simp [hid]

/-- What is added to the entry of a message. -/
theorem attachment_transcriptCalls (hp : p.Distinct) {message : MessageProjection}
    (hmessage : message ∈ p.messages) :
    attachment (transcriptCalls p) message =
      if uncovered p.context.activeArtifact message then attachment p.allCalls message else none := by
  rw [attachment, filter_transcriptCalls hp hmessage]
  split
  · rfl
  · simp

theorem attachment_isSome {calls : List ToolCallProjection} {message : MessageProjection} :
    (attachment calls message).isSome = true ↔
      message.role = .assistant ∧ ∃ call ∈ calls, call.assistantMessageId = message.messageId := by
  have hne : (∃ call ∈ calls, call.assistantMessageId = message.messageId) ↔
      calls.filter (·.assistantMessageId = message.messageId) ≠ [] := by
    rw [ne_eq, List.filter_eq_nil_iff]
    simp
  rw [hne, attachment]
  split
  · next h =>
    simp only [Option.isSome_none, Bool.false_eq_true, false_iff, not_and, ne_eq, not_not]
    exact fun hrole => h.resolve_left (not_not.mpr hrole)
  · next h =>
    rw [not_or, not_not] at h
    exact ⟨fun _ => h, fun _ => rfl⟩

/-- No entry has calls before they are attached. -/
theorem lookup_rendered {entry : List (String × Json)}
    (h : entry ∈ transcriptMessages p instructions) :
    SortedMap.lookup "tool_calls" entry = none := by
  have hplain : ∀ role content, SortedMap.lookup "tool_calls" (transcriptEntry role content) = none := by
    intro role content
    simp [transcriptEntry, SortedMap.lookup]
  simp only [transcriptMessages, List.mem_append, List.mem_map] at h
  rcases h with (⟨text, -, rfl⟩ | ⟨artifact, -, rfl⟩) | ⟨message, -, rfl⟩
  all_goals exact hplain _ _

/-- The offset of the positions, and the positions of the entries. -/
theorem aligned_iff {before : List MessageProjection} {message : MessageProjection}
    {after : List MessageProjection} (hclosed : p.closedMessages = before ++ message :: after) :
    (transcriptMessages p instructions).length - p.closedMessages.length + before.length =
        Placement.slot (frontEntries p instructions) (uncovered p.context.activeArtifact)
          p.closedMessages before.length ↔
      (frontEntries p instructions).length - p.countCovered p.closedMessages +
        p.countCovered before = (frontEntries p instructions).length := by
  have hcount : ∀ messages : List MessageProjection,
      messages.length = messages.countP (uncovered p.context.activeArtifact) +
        p.countCovered messages := by
    intro messages
    rw [List.length_eq_countP_add_countP (uncovered p.context.activeArtifact),
      SessionProjection.countCovered]
    simp
  have hlength : (transcriptMessages p instructions).length =
      (frontEntries p instructions).length +
        p.closedMessages.countP (uncovered p.context.activeArtifact) := by
    rw [transcriptMessages_eq_rendered, Placement.length_rendered, List.countP_eq_length_filter]
  have htake : p.closedMessages.take before.length = before := by
    rw [hclosed, List.take_left]
  rw [Placement.slot, htake, hlength]
  have htotal := hcount p.closedMessages
  have hbefore := hcount before
  omega

/-- **Calls are attached to the right entries exactly where they are aligned.** -/
theorem chatTranscript_eq_attached_iff (hp : p.Distinct) :
    chatTranscript p instructions = some (attachedTranscript p instructions) ↔
      p.CallsAligned instructions := by
  have hmem : ∀ message ∈ p.closedMessages, message ∈ p.messages :=
    fun message hmessage => (List.mem_filter.mp hmessage).1
  -- what is attached is the same whether the calls of covered messages are left out or not
  have hplaced : Placement.placed messageEntry (frontEntries p instructions)
      (attachment (transcriptCalls p)) (uncovered p.context.activeArtifact) p.closedMessages =
        frontEntries p instructions ++
          (p.closedMessages.filter (uncovered p.context.activeArtifact)).map fun message =>
            ((attachment p.allCalls message).getD id) (messageEntry message) := by
    refine congrArg (frontEntries p instructions ++ ·) (List.map_congr_left fun message hmessage => ?_)
    obtain ⟨hclosed, hun⟩ := List.mem_filter.mp hmessage
    rw [attachment_transcriptCalls hp (hmem message hclosed), if_pos hun]
  have hupdate : ∀ message ∈ p.closedMessages, (attachment (transcriptCalls p) message).isSome = true ↔
      uncovered p.context.activeArtifact message = true ∧ message.role = .assistant ∧
        ∃ call ∈ p.allCalls, call.assistantMessageId = message.messageId := by
    intro message hmessage
    rw [attachment_transcriptCalls hp (hmem message hmessage)]
    split
    · next hun => rw [attachment_isSome]; simp [hun]
    · next hun => simp [hun]
  have htranscript : chatTranscript p instructions = some (attachedTranscript p instructions) ↔
      Placement.placeAt (attachment (transcriptCalls p))
        ((transcriptMessages p instructions).length - p.closedMessages.length) p.closedMessages
        (transcriptMessages p instructions) =
      some (Placement.placed messageEntry (frontEntries p instructions)
        (attachment (transcriptCalls p)) (uncovered p.context.activeArtifact) p.closedMessages) := by
    rw [← attachCalls_eq_placeAt, hplaced, chatTranscript, Option.map_eq_some_iff]
    constructor
    · rintro ⟨transcript, htranscript, heq⟩
      rw [attachedTranscript, toolEntries, List.append_cancel_right_eq] at heq
      rw [← List.map_injective_iff.mpr (fun _ _ h => Json.obj.inj h) heq]
      exact htranscript
    · intro htranscript
      exact ⟨_, htranscript, rfl⟩
  rw [htranscript, transcriptMessages_eq_rendered, Placement.placeAt_eq_some_iff
    fun entry => (SortedMap.lookup "tool_calls" entry).isSome]
  · constructor
    · intro h before message after hclosed hun hrole hcall
      have hk : p.closedMessages[before.length]? = some message := by
        rw [hclosed]
        simp
      refine (aligned_iff hclosed).mp (h before.length message hk ?_)
      exact (hupdate message (List.mem_of_getElem? hk)).mpr ⟨hun, hrole, hcall⟩
    · intro h k message hk hsome
      obtain ⟨hun, hrole, hcall⟩ := (hupdate message (List.mem_of_getElem? hk)).mp hsome
      obtain ⟨hlt, hget⟩ := List.getElem?_eq_some_iff.mp hk
      have hclosed : p.closedMessages =
          p.closedMessages.take k ++ message :: p.closedMessages.drop (k + 1) := by
        rw [← hget, List.getElem_cons_drop, List.take_append_drop]
      have haligned := (aligned_iff hclosed).mpr (h _ message _ hclosed hun hrole hcall)
      rwa [List.length_take_of_le hlt.le] at haligned
  · intro message f hf entry
    rw [attachment] at hf
    split at hf
    · cases hf
    · cases hf
      simp [SortedMap.lookup_insertEntry]
  · intro entry hentry
    rw [lookup_rendered (transcriptMessages_eq_rendered p instructions ▸ hentry)]
    rfl
  · intro message hmessage hsome
    exact ((hupdate message hmessage).mp hsome).1

end Attach

/-- How the transcript gets into the body: a position out of range is a panic. -/
theorem buildBody_chatCompletions (config : PiqoConfig) (request : RunRequest)
    (p : SessionProjection) (nativeTools : List NativeTool) (mcpTools : List McpToolDefinition)
    {instructions : Option String}
    (hinstructions : agentInstructions config request.agent = .ok instructions) :
    ∃ fields, mergeRequestBodies (config.bodyLayers request.model request.agent request.variant
        request.body) = .ok (.obj fields) ∧
      buildBody config .chatCompletions request p nativeTools mcpTools =
        (chatTranscript p instructions).elim (.error .panicked) fun items =>
          .ok (.obj (Json.orInsert "messages" (.arr items)
            (harnessFields .chatCompletions request nativeTools mcpTools fields))) := by
  obtain ⟨fields, hmerge, -⟩ := mergeRequestBodies_bodyLayers config request.model request.agent
    request.variant request.body
  refine ⟨fields, hmerge, ?_⟩
  have hfield : transcriptField .chatCompletions p instructions =
      (chatTranscript p instructions).map fun items => ("messages", .arr items) := rfl
  unfold buildBody
  rw [hmerge, hinstructions]
  simp only [Except.mapError, Json.asObject?, bind, Except.bind, hfield]
  cases chatTranscript p instructions <;> rfl

/-- **Tool calls and Chat messages.** For every projection of an accepted log and every request, the
body is built around the transcript, whose calls all are in the entries of their messages exactly
where the messages with calls are aligned; a position out of range is a panic. -/
theorem tool_calls_attached_iff (sessionId : String) (log : List (Nat × SemanticEvent))
    (p : SessionProjection) (hlog : (SessionProjection.new sessionId).applyLog log = .ok p)
    (config : PiqoConfig) (request : RunRequest) (nativeTools : List NativeTool)
    (mcpTools : List McpToolDefinition) (instructions : Option String)
    (hinstructions : agentInstructions config request.agent = .ok instructions) :
    (∃ fields, mergeRequestBodies (config.bodyLayers request.model request.agent request.variant
        request.body) = .ok (.obj fields) ∧
      buildBody config .chatCompletions request p nativeTools mcpTools =
        (chatTranscript p instructions).elim (.error .panicked) fun items =>
          .ok (.obj (Json.orInsert "messages" (.arr items)
            (harnessFields .chatCompletions request nativeTools mcpTools fields)))) ∧
      (chatTranscript p instructions = some (attachedTranscript p instructions) ↔
        p.CallsAligned instructions) := by
  refine ⟨buildBody_chatCompletions config request p nativeTools mcpTools hinstructions, ?_⟩
  refine chatTranscript_eq_attached_iff ?_
  exact SessionProjection.applyLog_preserves (fun hp h => hp.apply h) (.new sessionId) hlog

/-! ## A conversation with a summary -/

/-- A summary of everything up to an event. -/
def summaryUntil (eventId : Nat) : ContextArtifact where
  artifactId := "a"
  supersedesArtifactId := none
  strategy := .deterministic
  strategyVersion := 1
  sourceStartEventId := 1
  sourceEndEventId := eventId
  contextWindowTokens := 0
  outputReserveTokens := 0
  estimatedInputTokens := 0
  targetInputTokens := 0
  estimatorVersion := ""
  summary := "hello"
  toolCorrelations := []

/-- Two messages, a summary up to `covered`, another message and a call of the assistant, and what
comes after it. -/
def summarizedLog (covered : Nat) (more : List (Nat × SemanticEvent)) :
    List (Nat × SemanticEvent) :=
  [(1, .sessionCreated none),
    (2, .runQueued "r" none "p" "m" .null),
    (3, .runStarted "r" "a" 1),
    (4, .messageStarted "m1" "" .user .user),
    (5, .messageCompleted "m1"),
    (6, .messageStarted "m2" "" .assistant (.agent "a")),
    (7, .messageCompleted "m2"),
    (8, .contextCompacted "r" (summaryUntil covered)),
    (9, .messageStarted "m3" "" .user .user),
    (10, .messageCompleted "m3"),
    (11, .messageStarted "m4" "" .assistant (.agent "a")),
    (12, .toolCallEmitted "r" "m4" "c" "a" "lookup" .null "" false),
    (13, .messageCompleted "m4")] ++ more

/-- The transcript of the conversation. -/
def summarizedTranscript (covered : Nat) (more : List (Nat × SemanticEvent)) :
    Option (Option (List Json)) :=
  ((SessionProjection.new "s").applyLog (summarizedLog covered more)).toOption.map
    (chatTranscript · none)

/-- A request without an agent. -/
def plainRequest : RunRequest where
  provider := "p"
  model := "m"
  input := .str "hi"
  agent := none
  variant := none
  body := .obj []

/-- The user says something more. -/
def oneMoreMessage : List (Nat × SemanticEvent) :=
  [(14, .messageStarted "m5" "" .user .user), (15, .messageCompleted "m5")]

/-- A summary of both first messages: the call of the last message is out of range, and with one
more message it is put into the message of the user. -/
theorem tool_calls_misplaced :
    (∃ p, (SessionProjection.new "s").applyLog (summarizedLog 7 []) = .ok p ∧
      chatTranscript p none ≠ some (attachedTranscript p none) ∧
      (buildBody {} .chatCompletions plainRequest p [] []) = .error .panicked) ∧
      (summarizedTranscript 7 oneMoreMessage).map (·.map (·.map fun entry =>
        ((entry.get "role").bind Json.asStr?, (entry.get "tool_calls").isSome))) =
        some (some [(some "system", false), (some "user", false), (some "assistant", false),
          (some "user", true)]) := by
  refine ⟨?_, by decide +kernel⟩
  have hnone : summarizedTranscript 7 [] = some none := by decide +kernel
  cases hp : (SessionProjection.new "s").applyLog (summarizedLog 7 []) with
  | error e => cases hp
  | ok p =>
    have htranscript : chatTranscript p none = none := by
      rw [summarizedTranscript, hp] at hnone
      exact Option.some.inj hnone
    obtain ⟨fields, -, hbody⟩ := buildBody_chatCompletions {} plainRequest p [] []
      (agentInstructions.eq_1 {})
    refine ⟨p, rfl, by simp [htranscript], ?_⟩
    rw [hbody, htranscript]
    rfl

/-- A summary of the first message only: the calls are where they belong. -/
theorem tool_calls_attached_short :
    ∃ p, (SessionProjection.new "s").applyLog (summarizedLog 5 []) = .ok p ∧
      chatTranscript p none = some (attachedTranscript p none) ∧ p.CallsAligned none := by
  cases hp : (SessionProjection.new "s").applyLog (summarizedLog 5 []) with
  | error e => cases hp
  | ok p =>
    refine ⟨p, rfl, ?_⟩
    have htranscript : chatTranscript p none = some (attachedTranscript p none) := by
      cases hp
      decide +kernel
    exact ⟨htranscript, (tool_calls_attached_iff "s" _ p hp {} plainRequest [] [] none rfl).2.mp
      htranscript⟩

/-! ## The order of the entries -/

/-- What an entry of the transcript renders. -/
inductive TranscriptItem where
  | message (message : MessageProjection)
  | call (runId : String) (call : ToolCallProjection)
  | result (runId : String) (call : ToolCallProjection) (result : Json)

/-- The emission of a call. -/
def SemanticEvent.emits (runId callId : String) : SemanticEvent → Bool
  | .toolCallEmitted runId' _ callId' _ _ _ _ _ => runId' = runId && callId' = callId
  | _ => false

/-- A result of a call. -/
def SemanticEvent.answers (runId callId : String) : SemanticEvent → Bool
  | .toolResult runId' callId' _ _ _ => runId' = runId && callId' = callId
  | _ => false

/-- The first event of a kind. -/
def eventAt (log : List (Nat × SemanticEvent)) (kind : SemanticEvent → Bool) : Nat :=
  ((log.find? fun entry => kind entry.2).map Prod.fst).getD 0

def emittedAt (log : List (Nat × SemanticEvent)) (call : String × ToolCallProjection) : Nat :=
  eventAt log (SemanticEvent.emits call.1 call.2.callId)

def answeredAt (log : List (Nat × SemanticEvent)) (call : String × ToolCallProjection) : Nat :=
  eventAt log (SemanticEvent.answers call.1 call.2.callId)

/-- The last event of a call. -/
def settledAt (log : List (Nat × SemanticEvent)) (call : String × ToolCallProjection) : Nat :=
  if call.2.result.isSome then answeredAt log call else emittedAt log call

/-- The event of an item; that of a message is the one that opens it. -/
def TranscriptItem.recordedAt (log : List (Nat × SemanticEvent)) : TranscriptItem → Nat
  | .message m => m.firstEventId
  | .call runId c => emittedAt log (runId, c)
  | .result runId c _ => answeredAt log (runId, c)

def TranscriptItem.isResult : TranscriptItem → Bool
  | .result _ _ _ => true
  | _ => false

def TranscriptItem.message? : TranscriptItem → Option MessageProjection
  | .message m => some m
  | _ => none

namespace SessionProjection

/-- The messages that the transcript shows. -/
def shownMessages (p : SessionProjection) : List MessageProjection :=
  p.closedMessages.filter (uncovered p.context.activeArtifact)

/-- The calls that it shows, with their runs. -/
def shownCalls (p : SessionProjection) : List (String × ToolCallProjection) :=
  (p.runs.values.flatMap fun run => run.toolCalls.values.map fun call => (run.runId, call)).filter
    fun call => p.context.activeArtifact.all fun artifact =>
      (p.messages.find? (·.messageId = call.2.assistantMessageId)).all fun message =>
        artifact.sourceEndEventId < message.lastEventId

end SessionProjection

/-- The result of a call, where there is one. -/
def resultItem (call : String × ToolCallProjection) : Option TranscriptItem :=
  call.2.result.map (.result call.1 call.2)

/-- The items of a transcript for Chat Completions. -/
def chatItems (p : SessionProjection) : List TranscriptItem :=
  p.shownMessages.map .message ++ p.shownCalls.filterMap resultItem

/-- The items of a transcript for Responses. -/
def responsesItems (p : SessionProjection) : List TranscriptItem :=
  p.shownMessages.map .message ++
    p.shownCalls.flatMap fun call => .call call.1 call.2 :: (resultItem call).toList

/-- The entry of an item for Chat Completions, where calls are in the entries of messages. -/
def TranscriptItem.chatEntry : TranscriptItem → Json
  | .message m => .obj (messageEntry m)
  | .call _ c => callEntry c
  | .result _ c r => .object [
      ("role", .str "tool"), ("tool_call_id", .str c.callId), ("content", .str r.render)]

/-- The entry of an item for Responses. -/
def TranscriptItem.responsesEntry : TranscriptItem → Json
  | .message m => .obj (messageEntry m)
  | .call _ c => .object [
      ("type", .str "function_call"), ("call_id", .str c.callId),
      ("name", .str c.toolName), ("arguments", .str c.rawArguments)]
  | .result _ c r => .object [
      ("type", .str "function_call_output"), ("call_id", .str c.callId), ("output", r)]

/-- An entry without the calls attached to it. -/
def withoutCalls (entry : Json) : Option Json × Option Json × Option Json :=
  (entry.get "role", entry.get "content", entry.get "tool_call_id")

section Items

variable {p : SessionProjection} {instructions : Option String}

theorem map_snd_shownCalls (p : SessionProjection) :
    p.shownCalls.map Prod.snd = transcriptCalls p := by
  rw [SessionProjection.shownCalls, transcriptCalls]
  have hcalls : p.runs.values.flatMap (·.toolCalls.values) =
      (p.runs.values.flatMap fun run =>
        run.toolCalls.values.map fun call => (run.runId, call)).map Prod.snd := by
    simp [List.map_flatMap, Function.comp_def]
  rw [hcalls, List.filter_map]
  rfl

theorem responsesTranscript_eq_items (p : SessionProjection) (instructions : Option String) :
    responsesTranscript p instructions = (frontEntries p instructions).map .obj ++
      (responsesItems p).map TranscriptItem.responsesEntry := by
  rw [responsesTranscript, transcriptMessages_eq_rendered, ← map_snd_shownCalls, responsesItems,
    Placement.rendered]
  simp only [List.map_append, List.map_map, List.append_assoc, List.flatMap_map, List.map_flatMap]
  refine congrArg₂ _ rfl (congrArg₂ _ ?_ (congrArg₂ _ (funext fun call => ?_) rfl))
  · rfl
  cases hresult : call.2.result <;> simp [resultItem, hresult, TranscriptItem.responsesEntry]

/-- The entries for Chat Completions, up to the calls attached to them. -/
theorem chatTranscript_items {items : List Json} (h : chatTranscript p instructions = some items) :
    items.map withoutCalls = ((frontEntries p instructions).map Json.obj ++
      (chatItems p).map TranscriptItem.chatEntry).map withoutCalls := by
  obtain ⟨transcript, htranscript, rfl⟩ := Option.map_eq_some_iff.mp h
  rw [attachCalls_eq_placeAt] at htranscript
  -- attaching calls touches no other field
  have hsame : transcript.map (withoutCalls ∘ Json.obj) =
      (transcriptMessages p instructions).map (withoutCalls ∘ Json.obj) := by
    refine List.ext_getElem? fun j => ?_
    rw [List.getElem?_map, List.getElem?_map, Placement.getElem?_placeAt htranscript]
    cases (transcriptMessages p instructions)[j]? with
    | none => rfl
    | some entry =>
      refine congrArg some ?_
      cases hupdate : Placement.updateAt (attachment (transcriptCalls p))
          ((transcriptMessages p instructions).length - (p.messages.filter (·.closed)).length)
          (p.messages.filter (·.closed)) j with
      | none => rfl
      | some f =>
        obtain ⟨k, message, -, hf, -⟩ := Placement.updateAt_eq_some.mp hupdate
        rw [attachment] at hf
        split at hf
        · cases hf
        · cases hf
          simp [withoutCalls, Json.get, Json.asObject?, SortedMap.lookup_insertEntry]
  have hresults : (transcriptCalls p).filterMap (fun call => call.result.map fun result =>
      Json.object [("role", .str "tool"), ("tool_call_id", .str call.callId),
        ("content", .str result.render)]) =
      (p.shownCalls.filterMap resultItem).map TranscriptItem.chatEntry := by
    rw [← map_snd_shownCalls, List.filterMap_map, List.map_filterMap]
    refine congrArg₂ _ (funext fun call => ?_) rfl
    simp only [Function.comp_apply, resultItem, Option.map_map]
    rfl
  rw [hresults, chatItems, List.map_append, List.map_map, hsame, transcriptMessages_eq_rendered,
    Placement.rendered]
  simp only [List.map_append, List.map_map, List.append_assoc]
  rfl

end Items

/-! ## When a call is recorded -/

section Recorded

variable {p q : SessionProjection} {log : List (Nat × SemanticEvent)} {runId callId : String}

/-- What the log says of a call: where it is emitted, and that its first result comes later. -/
structure CallRecorded (log : List (Nat × SemanticEvent)) (runId callId : String)
    (call : Option ToolCallProjection) : Prop where
  emitted : call = none → log.find? (fun entry => entry.2.emits runId callId) = none
  unanswered : (call.bind (·.result)) = none →
    log.find? (fun entry => entry.2.answers runId callId) = none
  answered : (call.bind (·.result)).isSome = true → ∃ emission result,
    log.find? (fun entry => entry.2.emits runId callId) = some emission ∧
      log.find? (fun entry => entry.2.answers runId callId) = some result ∧
      emission.1 ≤ result.1
  emission : call.isSome = true →
    (log.find? fun entry => entry.2.emits runId callId).isSome = true

theorem emits_iff {e : SemanticEvent} : e.emits runId callId = true ↔
    ∃ messageId agentId toolName arguments rawArguments native,
      e = .toolCallEmitted runId messageId callId agentId toolName arguments rawArguments native := by
  cases e <;> simp [SemanticEvent.emits]

theorem answers_iff {e : SemanticEvent} : e.answers runId callId = true ↔
    ∃ agentId toolName result, e = .toolResult runId callId agentId toolName result := by
  cases e <;> simp [SemanticEvent.answers]

theorem find?_snoc_of_not (log : List (Nat × SemanticEvent)) (kind : SemanticEvent → Bool)
    (entry : Nat × SemanticEvent) (h : kind entry.2 = false) :
    (log ++ [entry]).find? (fun entry => kind entry.2) = log.find? fun entry => kind entry.2 := by
  rw [List.find?_append, List.find?_cons_of_neg (by simp [h]), List.find?_nil, Option.or_none]

theorem find?_snoc_of_some (kind : SemanticEvent → Bool) (entry : Nat × SemanticEvent)
    (h : (log.find? fun entry => kind entry.2).isSome = true) :
    (log ++ [entry]).find? (fun entry => kind entry.2) = log.find? fun entry => kind entry.2 := by
  rw [List.find?_append, Option.or_of_isSome h]

theorem find?_snoc_of_new (kind : SemanticEvent → Bool) {entry : Nat × SemanticEvent}
    (hnone : (log.find? fun entry => kind entry.2) = none) (h : kind entry.2 = true) :
    (log ++ [entry]).find? (fun entry => kind entry.2) = some entry := by
  simp [List.find?_append, hnone, h]

/-- An accepted event keeps what the log says of a call. -/
theorem CallRecorded.apply (hp : CallRecorded log runId callId (p.call? runId callId))
    {eventId : Nat} {e : SemanticEvent} (h : p.apply eventId e = .ok q)
    (hlater : ∀ entry ∈ log, entry.1 < eventId) :
    CallRecorded (log ++ [(eventId, e)]) runId callId (q.call? runId callId) := by
  by_cases hemits : e.emits runId callId = true
  · obtain ⟨messageId, agentId, toolName, arguments, rawArguments, native, rfl⟩ := emits_iff.mp hemits
    obtain ⟨hnone, call, hcall, hresult⟩ := SessionProjection.apply_toolCallEmitted h
    rw [hcall]
    refine ⟨by simp, fun _ => ?_, by simp [hresult], fun _ => ?_⟩
    · rw [find?_snoc_of_not _ _ _ rfl]
      exact hp.unanswered (by rw [hnone]; rfl)
    · rw [find?_snoc_of_new (SemanticEvent.emits runId callId) (hp.emitted hnone) hemits]
      rfl
  have hemits : e.emits runId callId = false := by simpa using hemits
  by_cases hanswers : e.answers runId callId = true
  · obtain ⟨agentId, toolName, result, rfl⟩ := answers_iff.mp hanswers
    obtain ⟨run, call, hrun, hget, hopen, rfl⟩ := SessionProjection.apply_toolResult_iff.mp h
    have hcall : p.call? runId callId = some call := by
      rw [SessionProjection.call?, hrun]
      exact hget
    have hafter : SessionProjection.call? { p with
        state := { p.state with lastEventId := some eventId }
        runs := p.runs.insert runId { run with
          toolCalls := run.toolCalls.insert callId { call with result := some result } } }
        runId callId = some { call with result := some result } := by
      rw [SessionProjection.call?, SortedMap.get?_insert_self]
      exact SortedMap.get?_insert_self ..
    rw [hafter]
    rw [hcall] at hp
    obtain ⟨emission, hemission⟩ := Option.isSome_iff_exists.mp (hp.emission rfl)
    have hfind := (find?_snoc_of_not log (SemanticEvent.emits runId callId)
      (eventId, .toolResult runId callId agentId toolName result) hemits).trans hemission
    refine ⟨by simp, by simp, fun _ => ?_, fun _ => by rw [hfind]; rfl⟩
    rcases hopen with hopen | hopen
    · refine ⟨emission, (eventId, .toolResult runId callId agentId toolName result), hfind, ?_, ?_⟩
      · exact find?_snoc_of_new (SemanticEvent.answers runId callId) (hp.unanswered hopen)
          hanswers
      · exact Nat.le_of_lt (hlater emission (List.mem_of_find?_eq_some hemission))
    · obtain ⟨emission', first, hemission', hfirst, hle⟩ := hp.answered (by simp [hopen])
      refine ⟨emission', first, ?_, ?_, hle⟩
      · rw [hfind, ← hemission, hemission']
      · rw [find?_snoc_of_some (SemanticEvent.answers runId callId) _ (by rw [hfirst]; rfl),
          hfirst]
  have hanswers : e.answers runId callId = false := by simpa using hanswers
  -- every other event leaves the call and its result
  have hsame : (q.call? runId callId).isSome = (p.call? runId callId).isSome ∧
      (q.call? runId callId).bind (·.result) = (p.call? runId callId).bind (·.result) := by
    have hchange := SessionProjection.apply_call h runId callId
    generalize p.call? runId callId = before at hchange ⊢
    generalize q.call? runId callId = after at hchange ⊢
    cases hchange with
    | same => exact ⟨rfl, rfl⟩
    | claimed => exact ⟨rfl, rfl⟩
    | emitted he =>
      rw [he] at hemits
      simp [SemanticEvent.emits] at hemits
    | answered call he =>
      rw [he] at hanswers
      simp [SemanticEvent.answers] at hanswers
  have hfindEmits := find?_snoc_of_not log (SemanticEvent.emits runId callId)
    (eventId, e) hemits
  have hfindAnswers := find?_snoc_of_not log (SemanticEvent.answers runId callId)
    (eventId, e) hanswers
  refine ⟨?_, ?_, ?_, ?_⟩
  · intro hnone
    rw [hfindEmits]
    exact hp.emitted (by simpa [hnone] using hsame.1.symm)
  · intro hnone
    rw [hfindAnswers]
    exact hp.unanswered (hsame.2.symm.trans hnone)
  · intro hsome
    rw [hfindEmits, hfindAnswers]
    exact hp.answered (hsame.2 ▸ hsome)
  · intro hsome
    rw [hfindEmits]
    exact hp.emission (hsame.1 ▸ hsome)

/-- A call is emitted before it is answered. -/
theorem callRecorded_of_applyLog (sessionId : String) {log : List (Nat × SemanticEvent)}
    (hincreasing : log.Pairwise (·.1 < ·.1)) {p : SessionProjection}
    (h : (SessionProjection.new sessionId).applyLog log = .ok p) (runId callId : String) :
    CallRecorded log runId callId (p.call? runId callId) := by
  suffices hgeneral : ∀ (before log : List (Nat × SemanticEvent)) (p q : SessionProjection),
      (before ++ log).Pairwise (·.1 < ·.1) →
      CallRecorded before runId callId (p.call? runId callId) → p.applyLog log = .ok q →
      CallRecorded (before ++ log) runId callId (q.call? runId callId) by
    refine hgeneral [] log _ p hincreasing ?_ h
    have hnone : (SessionProjection.new sessionId).call? runId callId = none := rfl
    rw [hnone]
    exact ⟨fun _ => rfl, fun _ => rfl, by simp, by simp⟩
  intro before log
  induction log generalizing before with
  | nil =>
    intro p q _ hp h
    cases h
    rwa [List.append_nil]
  | cons entry log ih =>
    intro p q hincreasing hp h
    obtain ⟨p', happly, hrest⟩ := SessionProjection.applyLog_cons_eq_ok.mp h
    have hlater : ∀ earlier ∈ before, earlier.1 < entry.1 := fun earlier hearlier =>
      (List.pairwise_append.mp hincreasing).2.2 earlier hearlier entry List.mem_cons_self
    have hsplit : before ++ entry :: log = before ++ [entry] ++ log := by simp
    rw [hsplit] at hincreasing ⊢
    exact ih (before ++ [entry]) p' q hincreasing (hp.apply happly hlater) hrest

end Recorded

/-! ## Order -/

namespace SessionProjection

/-- The calls with results. -/
def answeredCalls (p : SessionProjection) : List (String × ToolCallProjection) :=
  p.shownCalls.filter (·.2.result.isSome)

/-- The entries for Chat Completions stand in the order of their events, and every result follows
the entry of its call with nothing but results between them. -/
structure ChatOrdered (log : List (Nat × SemanticEvent)) (p : SessionProjection) : Prop where
  ordered : (chatItems p).Pairwise fun a b => a.recordedAt log ≤ b.recordedAt log
  adjacent : ∀ before runId call result after,
    chatItems p = before ++ .result runId call result :: after →
      ∃ first message between, before = first ++ .message message :: between ∧
        message.messageId = call.assistantMessageId ∧ message.role = .assistant ∧
        ∀ item ∈ between, item.isResult = true

/-- The entries for Responses stand in the order of their events; in particular a call and its
result stand before the messages recorded after them. -/
structure ResponsesOrdered (log : List (Nat × SemanticEvent)) (p : SessionProjection) : Prop where
  ordered : (responsesItems p).Pairwise fun a b => a.recordedAt log ≤ b.recordedAt log
  earlier : ∀ before item after, responsesItems p = before ++ item :: after →
    ∀ message, .message message ∈ before → message.firstEventId ≤ item.recordedAt log

/-- All results belong to the last message, come after all messages, and in the order of their runs
and call ids. -/
structure ResultsLast (log : List (Nat × SemanticEvent)) (p : SessionProjection) : Prop where
  last : ∀ call ∈ p.answeredCalls, ∃ message, p.shownMessages.getLast? = some message ∧
    message.messageId = call.2.assistantMessageId ∧ message.role = .assistant
  later : ∀ message ∈ p.shownMessages, ∀ call ∈ p.answeredCalls,
    message.firstEventId ≤ answeredAt log call
  keyed : p.answeredCalls.Pairwise fun a b => answeredAt log a ≤ answeredAt log b

/-- All calls come after all messages, and one after the other in the order of their runs and call
ids. -/
structure CallsLast (log : List (Nat × SemanticEvent)) (p : SessionProjection) : Prop where
  later : ∀ message ∈ p.shownMessages, ∀ call ∈ p.shownCalls,
    message.firstEventId ≤ emittedAt log call
  apart : p.shownCalls.Pairwise fun a b => settledAt log a ≤ emittedAt log b

end SessionProjection

section Order

variable {p : SessionProjection} {log : List (Nat × SemanticEvent)}

theorem shownMessages_ordered (hp : p.Represented) :
    p.shownMessages.Pairwise (·.firstEventId < ·.firstEventId) :=
  (hp.opened.filter _).filter _

theorem call?_of_mem_shownCalls (hp : p.WellKeyed) {call : String × ToolCallProjection}
    (h : call ∈ p.shownCalls) : p.call? call.1 call.2.callId = some call.2 := by
  obtain ⟨run, hrun, hcall⟩ := List.mem_flatMap.mp (List.mem_filter.mp h).1
  obtain ⟨call', hcall', rfl⟩ := List.mem_map.mp hcall
  obtain ⟨runId, hrun⟩ := (SortedMap.mem_values_iff _).mp hrun
  obtain ⟨callId, hcall'⟩ := (SortedMap.mem_values_iff _).mp hcall'
  have hget : p.call? runId callId = some call' := by
    rw [SessionProjection.call?, hrun]
    exact hcall'
  rw [hp.run hrun, hp.call hget]
  exact hget

/-- A call that is shown is emitted before it is settled. -/
theorem emittedAt_le_settledAt (hrecorded : ∀ runId callId,
      CallRecorded log runId callId (p.call? runId callId)) (hp : p.WellKeyed)
    {call : String × ToolCallProjection} (h : call ∈ p.shownCalls) :
    emittedAt log call ≤ settledAt log call := by
  rw [settledAt]
  split
  · next hresult =>
    have hcall := hrecorded call.1 call.2.callId
    rw [call?_of_mem_shownCalls hp h] at hcall
    obtain ⟨emission, result, hemission, hanswer, hle⟩ := hcall.answered hresult
    rw [emittedAt, answeredAt, eventAt, eventAt, hemission, hanswer]
    exact hle
  · exact Nat.le_refl _

/-- The results among the items. -/
theorem pairwise_resultItem {calls : List (String × ToolCallProjection)} :
    (calls.filterMap resultItem).Pairwise (fun a b => a.recordedAt log ≤ b.recordedAt log) ↔
      (calls.filter (·.2.result.isSome)).Pairwise fun a b => answeredAt log a ≤ answeredAt log b := by
  have hfilter : calls.filterMap resultItem =
      (calls.filter (·.2.result.isSome)).filterMap resultItem := by
    rw [List.filterMap_filter]
    refine List.filterMap_congr fun call _ => ?_
    cases hresult : call.2.result <;> simp [resultItem, hresult]
  rw [hfilter, List.pairwise_filterMap]
  constructor
  · intro h
    refine h.imp_of_mem fun {a b} ha hb hab => ?_
    obtain ⟨result, hresult⟩ := Option.isSome_iff_exists.mp (List.mem_filter.mp ha).2
    obtain ⟨result', hresult'⟩ := Option.isSome_iff_exists.mp (List.mem_filter.mp hb).2
    exact hab _ (by rw [resultItem, hresult]; rfl) _ (by rw [resultItem, hresult']; rfl)
  · intro h
    refine h.imp fun {a b} hab item hitem item' hitem' => ?_
    obtain ⟨result, -, rfl⟩ := Option.map_eq_some_iff.mp hitem
    obtain ⟨result', -, rfl⟩ := Option.map_eq_some_iff.mp hitem'
    exact hab

theorem mem_filterMap_resultItem {item : TranscriptItem} :
    item ∈ p.shownCalls.filterMap resultItem ↔
      ∃ call ∈ p.answeredCalls, ∃ result, call.2.result = some result ∧
        item = .result call.1 call.2 result := by
  rw [List.mem_filterMap]
  constructor
  · rintro ⟨call, hcall, hitem⟩
    obtain ⟨result, hresult, rfl⟩ := Option.map_eq_some_iff.mp hitem
    exact ⟨call, List.mem_filter.mpr ⟨hcall, by simp [hresult]⟩, result, hresult, rfl⟩
  · rintro ⟨call, hcall, result, hresult, rfl⟩
    exact ⟨call, (List.mem_filter.mp hcall).1, by rw [resultItem, hresult]; rfl⟩

/-- The order of the entries for Chat Completions. -/
theorem pairwise_chatItems (hp : p.Represented) :
    (chatItems p).Pairwise (fun a b => a.recordedAt log ≤ b.recordedAt log) ↔
      (p.answeredCalls.Pairwise fun a b => answeredAt log a ≤ answeredAt log b) ∧
        ∀ message ∈ p.shownMessages, ∀ call ∈ p.answeredCalls,
          message.firstEventId ≤ answeredAt log call := by
  have hmessages : (p.shownMessages.map TranscriptItem.message).Pairwise
      fun a b => a.recordedAt log ≤ b.recordedAt log := by
    rw [List.pairwise_map]
    exact (shownMessages_ordered hp).imp Nat.le_of_lt
  rw [chatItems, List.pairwise_append, pairwise_resultItem]
  constructor
  · rintro ⟨-, hkeyed, hlater⟩
    refine ⟨hkeyed, fun message hmessage call hcall => ?_⟩
    obtain ⟨result, hresult⟩ := Option.isSome_iff_exists.mp (List.mem_filter.mp hcall).2
    exact hlater _ (List.mem_map_of_mem hmessage) _
      (mem_filterMap_resultItem.mpr ⟨call, hcall, result, hresult, rfl⟩)
  · rintro ⟨hkeyed, hlater⟩
    refine ⟨hmessages, hkeyed, fun item hitem item' hitem' => ?_⟩
    obtain ⟨message, hmessage, rfl⟩ := List.mem_map.mp hitem
    obtain ⟨call, hcall, result, -, rfl⟩ := mem_filterMap_resultItem.mp hitem'
    exact hlater message hmessage call hcall

/-- A result follows its message directly where that is the last one. -/
theorem adjacent_iff {before after : List TranscriptItem} {runId : String}
    {call : ToolCallProjection} {result : Json}
    (h : chatItems p = before ++ .result runId call result :: after) :
    (∃ first message between, before = first ++ .message message :: between ∧
        message.messageId = call.assistantMessageId ∧ message.role = .assistant ∧
        ∀ item ∈ between, item.isResult = true) ↔
      ∃ message, p.shownMessages.getLast? = some message ∧
        message.messageId = call.assistantMessageId ∧ message.role = .assistant := by
  -- the results before this one
  obtain ⟨results, hbefore, hresults⟩ : ∃ results,
      before = p.shownMessages.map .message ++ results ∧ ∀ item ∈ results, item.isResult = true := by
    rw [chatItems, List.append_eq_append_iff] at h
    have hisResult : ∀ item ∈ p.shownCalls.filterMap resultItem, item.isResult = true := by
      intro item hitem
      obtain ⟨call, -, result, -, rfl⟩ := mem_filterMap_resultItem.mp hitem
      rfl
    rcases h with ⟨results, rfl, hrest⟩ | ⟨messages, hmessages, hrest⟩
    · refine ⟨results, rfl, fun item hitem => hisResult item ?_⟩
      rw [hrest]
      exact List.mem_append_left _ hitem
    · cases messages with
      | nil =>
        refine ⟨[], ?_, by simp⟩
        rw [hmessages, List.append_nil, List.append_nil]
      | cons item messages =>
        rw [List.cons_append] at hrest
        obtain ⟨rfl, -⟩ := List.cons.inj hrest
        have hmem : TranscriptItem.result runId call result ∈
            p.shownMessages.map TranscriptItem.message := by
          rw [hmessages]
          simp
        obtain ⟨message, -, hitem⟩ := List.mem_map.mp hmem
        cases hitem
  constructor
  · rintro ⟨first, message, between, hsplit, hid, hrole, hbetween⟩
    refine ⟨message, ?_, hid, hrole⟩
    have hnone : ∀ items : List TranscriptItem, (∀ item ∈ items, item.isResult = true) →
        items.filterMap TranscriptItem.message? = [] := by
      intro items hitems
      refine List.filterMap_eq_nil_iff.mpr fun item hitem => ?_
      cases item with
      | result => rfl
      | _ => cases hitems _ hitem
    -- the messages of both ways to split the items
    have hmessages := congrArg (List.filterMap TranscriptItem.message?) (hbefore.symm.trans hsplit)
    rw [List.filterMap_append, List.filterMap_append, hnone results hresults, List.filterMap_map,
      List.filterMap_cons_some (f := TranscriptItem.message?) (a := .message message) rfl,
      hnone between hbetween, List.append_nil,
      show TranscriptItem.message? ∘ TranscriptItem.message = some from rfl,
      List.filterMap_some] at hmessages
    rw [hmessages, List.getLast?_concat]
  · rintro ⟨message, hlast, hid, hrole⟩
    obtain ⟨messages, hmessages⟩ := List.getLast?_eq_some_iff.mp hlast
    refine ⟨messages.map .message, message, results, ?_, hid, hrole, hresults⟩
    rw [hbefore, hmessages]
    simp

theorem chatOrdered_iff (hp : p.Represented) : p.ChatOrdered log ↔ p.ResultsLast log := by
  constructor
  · intro h
    obtain ⟨hkeyed, hlater⟩ := (pairwise_chatItems hp).mp h.ordered
    refine ⟨fun call hcall => ?_, hlater, hkeyed⟩
    obtain ⟨result, hresult⟩ := Option.isSome_iff_exists.mp (List.mem_filter.mp hcall).2
    have hmem : TranscriptItem.result call.1 call.2 result ∈ chatItems p :=
      List.mem_append_right _ (mem_filterMap_resultItem.mpr ⟨call, hcall, result, hresult, rfl⟩)
    obtain ⟨before, after, hsplit⟩ := List.append_of_mem hmem
    exact (adjacent_iff hsplit).mp (h.adjacent before _ _ _ after hsplit)
  · intro h
    refine ⟨(pairwise_chatItems hp).mpr ⟨h.keyed, h.later⟩, ?_⟩
    intro before runId call result after hsplit
    refine (adjacent_iff hsplit).mpr ?_
    have hmem : TranscriptItem.result runId call result ∈ chatItems p := by
      rw [hsplit]
      simp
    rcases List.mem_append.mp hmem with hmem | hmem
    · obtain ⟨message, -, hitem⟩ := List.mem_map.mp hmem
      cases hitem
    · obtain ⟨call', hcall', result', -, hitem⟩ := mem_filterMap_resultItem.mp hmem
      cases hitem
      exact h.last call' hcall'

/-- The items of a call. -/
theorem mem_callItems {call : String × ToolCallProjection} {item : TranscriptItem} :
    item ∈ TranscriptItem.call call.1 call.2 :: (resultItem call).toList ↔
      item = .call call.1 call.2 ∨
        ∃ result, call.2.result = some result ∧ item = .result call.1 call.2 result := by
  rw [List.mem_cons, Option.mem_toList, resultItem, Option.map_eq_some_iff]
  simp only [eq_comm]

theorem responsesOrdered_iff (hp : p.Represented)
    (hrecorded : ∀ runId callId, CallRecorded log runId callId (p.call? runId callId)) :
    p.ResponsesOrdered log ↔ p.CallsLast log := by
  have hmessages : (p.shownMessages.map TranscriptItem.message).Pairwise
      fun a b => a.recordedAt log ≤ b.recordedAt log := by
    rw [List.pairwise_map]
    exact (shownMessages_ordered hp).imp Nat.le_of_lt
  -- the items of a call are recorded from its emission on, until it is settled
  have hitems : ∀ call ∈ p.shownCalls,
      ∀ item ∈ TranscriptItem.call call.1 call.2 :: (resultItem call).toList,
        emittedAt log call ≤ item.recordedAt log ∧ item.recordedAt log ≤ settledAt log call := by
    intro call hcall item hitem
    have hle := emittedAt_le_settledAt hrecorded hp.keyed hcall
    rcases mem_callItems.mp hitem with rfl | ⟨result, hresult, rfl⟩
    · exact ⟨Nat.le_refl _, hle⟩
    · have hsettled : settledAt log call = answeredAt log call := by
        rw [settledAt, hresult]
        rfl
      exact ⟨hle.trans hsettled.le, hsettled.ge⟩
  have hsettled : ∀ call : String × ToolCallProjection,
      ∃ item ∈ TranscriptItem.call call.1 call.2 :: (resultItem call).toList,
        item.recordedAt log = settledAt log call := by
    intro call
    cases hresult : call.2.result with
    | none =>
      refine ⟨_, mem_callItems.mpr (.inl rfl), ?_⟩
      rw [settledAt, hresult]
      rfl
    | some result =>
      refine ⟨_, mem_callItems.mpr (.inr ⟨result, hresult, rfl⟩), ?_⟩
      rw [settledAt, hresult]
      rfl
  have hordered : (responsesItems p).Pairwise (fun a b => a.recordedAt log ≤ b.recordedAt log) ↔
      p.CallsLast log := by
    rw [responsesItems, List.pairwise_append, List.pairwise_flatMap]
    constructor
    · rintro ⟨-, ⟨-, hapart⟩, hlater⟩
      refine ⟨fun message hmessage call hcall => ?_, ?_⟩
      · exact hlater _ (List.mem_map_of_mem hmessage) (.call call.1 call.2)
          (List.mem_flatMap.mpr ⟨call, hcall, List.mem_cons_self⟩)
      · refine hapart.imp fun {a b} hab => ?_
        obtain ⟨item, hitem, heq⟩ := hsettled a
        rw [← heq]
        exact hab item hitem (.call b.1 b.2) List.mem_cons_self
    · intro h
      refine ⟨hmessages, ⟨fun call hcall => ?_, ?_⟩, ?_⟩
      · refine List.pairwise_cons.mpr ⟨fun item hitem => ?_, ?_⟩
        · exact (hitems call hcall item (List.mem_cons_of_mem _ hitem)).1
        · cases resultItem call <;> simp
      · refine h.apart.imp_of_mem fun {a b} ha hb hab item hitem item' hitem' => ?_
        exact ((hitems a ha item hitem).2.trans hab).trans (hitems b hb item' hitem').1
      · intro item hitem item' hitem'
        obtain ⟨message, hmessage, rfl⟩ := List.mem_map.mp hitem
        obtain ⟨call, hcall, hitem'⟩ := List.mem_flatMap.mp hitem'
        exact (h.later message hmessage call hcall).trans (hitems call hcall item' hitem').1
  refine ⟨fun h => hordered.mp h.ordered, fun h => ⟨hordered.mpr h, ?_⟩⟩
  intro before item after hsplit message hmessage
  have hpairwise := hordered.mpr h
  rw [hsplit, List.pairwise_append] at hpairwise
  exact hpairwise.2.2 _ hmessage item List.mem_cons_self

end Order

/-! ## Two turns -/

/-- Whether every call has its result before the next message of the assistant starts. -/
def answersFirst : List (String × String) → List (Nat × SemanticEvent) → Bool
  | _, [] => true
  | pending, (_, .toolCallEmitted runId _ callId _ _ _ _ _) :: log =>
    answersFirst ((runId, callId) :: pending) log
  | pending, (_, .toolResult runId callId _ _ _) :: log =>
    answersFirst (pending.filter (· ≠ (runId, callId))) log
  | pending, (_, .messageStarted _ _ .assistant _) :: log =>
    pending.isEmpty && answersFirst pending log
  | pending, _ :: log => answersFirst pending log

/-- A turn with a call and its result, and what comes after it. -/
def turnLog (more : List (Nat × SemanticEvent)) : List (Nat × SemanticEvent) :=
  [(1, .sessionCreated none),
    (2, .runQueued "r" none "p" "m" .null),
    (3, .runStarted "r" "a" 1),
    (4, .messageStarted "m1" "" .user .user),
    (5, .messageCompleted "m1"),
    (6, .messageStarted "m2" "" .assistant (.agent "a")),
    (7, .toolCallEmitted "r" "m2" "c" "a" "lookup" .null "" false),
    (8, .messageCompleted "m2"),
    (9, .toolResult "r" "c" "a" "lookup" (.str "found"))] ++ more

/-- The assistant goes on. -/
def secondTurn : List (Nat × SemanticEvent) :=
  [(10, .messageStarted "m3" "" .assistant (.agent "a")), (11, .messageCompleted "m3")]

end Piqo
