import PiqoServer.Server.Sse
import PiqoServer.Server.Transcription

/-!
# What a provider says

The parsers of `piqo-provider/src/transport.rs`: an event of a stream or a response as a whole, in
either protocol, as the pieces that the execution of a run reads.

## Main definitions

* `parseChatEvent`, `parseResponsesEvent`: the events of the two protocols
* `parseSseEvent`, `parseNonStreamResponse`: a frame of a stream, and a response as a whole
* `Answered`: an execution that settles, and the response it ends with

## Main results

* `received_stream`, `received_whole`: the pieces that are read
* `Answered.text`, `Answered.calls`: what is recorded of them
-/

namespace Piqo

/-! ## Parsing -/

/-- The text at a field. -/
def Json.strAt (v : Json) (key : String) : Option String := (v.get key).bind asStr?

/-- The items of the array at a field. -/
def Json.itemsAt (v : Json) (key : String) : List Json := ((v.get key).bind asArray?).getD []

/-- The id of a call that comes with an index only. -/
def streamIndex (index : Nat) : String := s!"stream-index-{index}"

/-- The usage that is stated. -/
def parseUsage (value : Json) : List ProviderDelta :=
  match value.get "usage" with
  | some usage => if usage.isNull then [] else [.usage usage]
  | none => []

/-- A tool call of a chat completion, or a fragment of one. -/
def parseChatCall (streaming : Bool) (call : Json) : ProviderDelta :=
  let function := call.get "function"
  let arguments := (function.bind (·.strAt "arguments")).getD ""
  let index := (call.get "index").bind Json.asU64?
  let callId := (call.strAt "id").or (index.map streamIndex)
  let name := function.bind (·.strAt "name")
  if streaming then .toolCallDelta index callId name arguments else .toolCall callId name arguments

def parseChatText (delta : Json) : List ProviderDelta :=
  match delta.strAt "content" with
  | some text => if text.isEmpty then [] else [.text text]
  | none => []

/-- A choice, which has a `delta` or a `message`. -/
def parseChoice (streaming : Bool) (choice : Json) : List ProviderDelta :=
  match (choice.get "delta").or (choice.get "message") with
  | some delta => parseChatText delta ++ (delta.itemsAt "tool_calls").map (parseChatCall streaming)
  | none => []

def parseChatEvent (streaming : Bool) (value : Json) : List ProviderDelta :=
  parseUsage value ++ (value.itemsAt "choices").flatMap (parseChoice streaming)

/-- An output item of a response as a whole. -/
def parseOutputItem (item : Json) : List ProviderDelta :=
  match item.strAt "type" with
  | some "message" =>
    (item.itemsAt "content").filterMap fun content => (content.strAt "text").map .text
  | some "function_call" =>
    [.toolCall (item.strAt "call_id") (item.strAt "name") ((item.strAt "arguments").getD "")]
  | _ => []

/-- What `pointer("/response/usage")` finds. -/
def responseUsage (value : Json) : Option Json := (value.get "response").bind (·.get "usage")

/-- The kind of an event: its SSE type, or the type it states. -/
def responsesKind (eventType : Option String) (value : Json) : String :=
  (eventType.or (value.strAt "type")).getD ""

def parseResponsesEvent (eventType : Option String) (value : Json) :
    Except String (List ProviderDelta) :=
  match responsesKind eventType value with
  | "response.output_text.delta" =>
    match value.strAt "delta" with
    | some text => .ok [.text text]
    | none => .ok []
  -- the fragments of the arguments come again as a whole
  | "response.function_call_arguments.delta" => .ok []
  | "response.function_call_arguments.done" =>
    .ok [.toolCall (value.strAt "item_id") (value.strAt "name") ((value.strAt "arguments").getD "")]
  | "response.completed" =>
    match responseUsage value with
    | some usage => .ok [.usage usage, .completed]
    | none => .ok [.completed]
  | "response.failed" | "error" => .error s!"provider SSE event is malformed: {value.render}"
  | "response.requires_action" => .ok [.requiresAction]
  -- the text has come in pieces before
  | "response.output_text.done" => .ok []
  | "response.created" | "response.in_progress" | "response.queued" => .ok []
  | "response" | "" => .ok (parseUsage value ++ (value.itemsAt "output").flatMap parseOutputItem)
  | _ => .ok []

section Parse

-- `serde_json::from_str`, with the text of its error
variable (fromStr : String → Except String Json)

def parseJson (text : String) : Except String Json :=
  (fromStr text).mapError fun e => s!"provider response contains invalid JSON: {e}"

/-- The end of a stream. -/
def isDone (data : String) : Bool := trim data = "[DONE]"

def parseSseEvent (protocol : ProviderProtocol) (eventType : Option String) (data : String) :
    Except String (List ProviderDelta) :=
  if isDone data then .ok [.completed]
  else do
    let value ← parseJson fromStr data
    match protocol with
    | .chatCompletions => .ok (parseChatEvent true value)
    | .responses => parseResponsesEvent eventType value

def parseNonStreamResponse (protocol : ProviderProtocol) (body : String) :
    Except String (List ProviderDelta) := do
  let value ← parseJson fromStr body
  let deltas ← match protocol with
    | .chatCompletions => .ok (parseChatEvent false value)
    | .responses => parseResponsesEvent none value
  return deltas ++ [.completed]

variable {fromStr}

theorem parseSseEvent_done {data : String} (h : isDone data = true) (protocol : ProviderProtocol)
    (eventType : Option String) :
    parseSseEvent fromStr protocol eventType data = .ok [.completed] := by
  rw [parseSseEvent, if_pos h]

theorem parseSseEvent_chat {data : String} {value : Json} (hdone : isDone data = false)
    (hvalue : fromStr data = .ok value) (eventType : Option String) :
    parseSseEvent fromStr .chatCompletions eventType data = .ok (parseChatEvent true value) := by
  rw [parseSseEvent, if_neg (by simp [hdone]), parseJson, hvalue]
  rfl

theorem parseSseEvent_responses {data : String} {value : Json} (hdone : isDone data = false)
    (hvalue : fromStr data = .ok value) (eventType : Option String) :
    parseSseEvent fromStr .responses eventType data = parseResponsesEvent eventType value := by
  rw [parseSseEvent, if_neg (by simp [hdone]), parseJson, hvalue]
  rfl

end Parse

/-! ## The pieces that are read -/

/-- Nothing ends the reading of the stream before its end. -/
def ByteItem.quiet : ByteItem → Bool
  | .chunk _ | .tick => true
  | _ => false

def StreamItem.quiet : StreamItem → Bool
  | .chunk _ | .tick => true
  | _ => false

theorem decodeItems_quiet {parse : Option String → String → Except String (List ProviderDelta)}
    {buffer : List UInt8} {items : List ByteItem} (h : ∀ item ∈ items, item.quiet = true) :
    ∀ item ∈ decodeItems parse buffer items, item.quiet = true := by
  induction items generalizing buffer with
  | nil => simp [decodeItems]
  | cons item items ih =>
    obtain ⟨hitem, hitems⟩ := List.forall_mem_cons.mp h
    cases item with
    | chunk bytes =>
      rw [decodeItems]
      split
      · exact List.forall_mem_cons.mpr ⟨rfl, ih hitems⟩
      · simp [StreamItem.quiet]
    | tick => exact List.forall_mem_cons.mpr ⟨rfl, ih hitems⟩
    | cancelled | shutdown | broken error => cases hitem

theorem untilStop_of_forall {stops : ProviderDelta → Bool} {deltas : List ProviderDelta}
    (h : ∀ delta ∈ deltas, stops delta = false) : untilStop stops deltas = (deltas, true) := by
  induction deltas with
  | nil => rfl
  | cons delta deltas ih =>
    obtain ⟨hdelta, hdeltas⟩ := List.forall_mem_cons.mp h
    rw [untilStop, if_neg (by simp [hdelta]), ih hdeltas]

/-- Frames that are all parsed and ask for no action are all read. -/
theorem framesReceived_of_ok {groups : List (List ProviderDelta)}
    (h : ∀ delta ∈ groups.flatten, delta ≠ .requiresAction) :
    framesReceived (groups.map .ok) = (groups.flatten, true) := by
  induction groups with
  | nil => rfl
  | cons deltas groups ih =>
    rw [List.flatten_cons] at h ⊢
    obtain ⟨hdeltas, hgroups⟩ := List.forall_mem_append.mp h
    have htaken : untilStop (fun delta => decide (delta = .requiresAction)) deltas =
        (deltas, true) := untilStop_of_forall (by simpa using hdeltas)
    rw [List.map_cons, framesReceived, htaken, ih hgroups]
    rfl

theorem streamReceived_of_ok {items : List StreamItem} {groups : List (List ProviderDelta)}
    (hquiet : ∀ item ∈ items, item.quiet = true)
    (hframes : items.flatMap StreamItem.frames = groups.map .ok)
    (h : ∀ delta ∈ groups.flatten, delta ≠ .requiresAction) :
    streamReceived items = groups.flatten := by
  induction items generalizing groups with
  | nil =>
    have hgroups : groups = [] := by simpa using hframes.symm
    rw [hgroups]
    rfl
  | cons item items ih =>
    obtain ⟨hitem, hitems⟩ := List.forall_mem_cons.mp hquiet
    cases item with
    | tick => exact ih hitems hframes h
    | chunk frames =>
      -- the frames of this chunk, and those behind it
      rw [List.flatMap_cons] at hframes
      obtain ⟨first, rest, rfl, hfirst, hrest⟩ := List.append_eq_map_iff.mp hframes
      rw [List.flatten_append] at h ⊢
      obtain ⟨hhead, htail⟩ := List.forall_mem_append.mp h
      have hframes' : frames = first.map .ok := hfirst.symm
      rw [streamReceived, hframes', framesReceived_of_ok hhead]
      exact congrArg (first.flatten ++ ·) (ih hitems hrest.symm htail)
    | cancelled | shutdown | broken error => cases hitem

/-- **A stream of which every frame is parsed is read to its end**, however its bytes come. -/
theorem received_stream {parse : Option String → String → Except String (List ProviderDelta)}
    {body : Json} {response : ProviderResponse} {items : List ByteItem}
    {frames : List (Option String × String)} {rest : List UInt8}
    {groups : List (List ProviderDelta)} (hmode : bodyStreamMode body = true)
    (hsuccess : response.success = true) (hstream : response.stream = decodeItems parse [] items)
    (hquiet : ∀ item ∈ items, item.quiet = true)
    (hframes : sseFrames (items.map ByteItem.bytes) = (frames, .ok rest))
    (hparse : parseFrames parse frames = groups.map .ok)
    (h : ∀ delta ∈ groups.flatten, delta ≠ .requiresAction) :
    received body response = groups.flatten := by
  rw [received, hsuccess, hmode, hstream]
  refine streamReceived_of_ok (decodeItems_quiet hquiet) ?_ h
  rw [decodeItems_frames parse hframes, hparse]

/-- A response as a whole is read up to what stops the reading. -/
theorem received_whole {body : Json} {response : ProviderResponse} {deltas : List ProviderDelta}
    (hmode : bodyStreamMode body = false) (hsuccess : response.success = true)
    (htext : response.text = .text (.ok deltas))
    (h : ∀ delta ∈ deltas, delta.stops = false) : received body response = deltas := by
  rw [received, hsuccess, hmode, TextReply.received, htext]
  change (untilStop ProviderDelta.stops deltas).1 = deltas
  rw [untilStop_of_forall h]

/-! ## What is recorded of them -/

/-- A call as it is recorded, where it came with an id. -/
def ToolCallBuffer.emitted (buffer : ToolCallBuffer) : EmittedCall :=
  ⟨buffer.callId.getD "", buffer.name.getD "function", buffer.arguments⟩

theorem ToolCallBuffer.RecordedAs.eq_emitted {buffer : ToolCallBuffer} {call : EmittedCall}
    (h : buffer.RecordedAs call) (hid : buffer.callId.isSome = true) : call = buffer.emitted := by
  obtain ⟨id, hid⟩ := Option.isSome_iff_exists.mp hid
  rw [ToolCallBuffer.emitted, hid, Option.getD_some, ← h.callId id hid, ← h.toolName,
    ← h.rawArguments]

deriving instance DecidableEq for StreamItem, TextReply, ProviderResponse

section Answered

variable {σ : Type} {handle : (op : ServerOp) → σ → op.Reply × σ} {sessionId : String}
  {run : RunProjection} {s : σ} {body : Json} {response : ProviderResponse}

/-- An execution that is neither cancelled nor interrupted, with all that it appended stored, and
the response it ends with. -/
structure Answered (handle : (op : ServerOp) → σ → op.Reply × σ) (sessionId : String)
    (run : RunProjection) (s : σ) (body : Json) (response : ProviderResponse) : Prop where
  settles : ∃ result, ((executeRun sessionId run).run handle s).1 = .ok result ∧
    result.settled = true
  stored : (executionJournal handle sessionId run s).faulted = false
  last : (executionJournal handle sessionId run s).responses.getLast? = some (body, response)

theorem Answered.transcribed (h : Answered handle sessionId run s body response) :
    Notes (collect (received body response)).1 (executionJournal handle sessionId run s) ∧
      (executionJournal handle sessionId run s).text = joinText (received body response) := by
  obtain ⟨result, hrun, hsettled⟩ := h.settles
  have hends := Program.Follows.track (executeRun_journal sessionId run) handle s
  rw [hrun] at hends
  change (executionJournal handle sessionId run s).Ends result.settled at hends
  have hheard : (executionJournal handle sessionId run s).heard = received body response := by
    rw [Journal.heard, h.last]
    rfl
  obtain ⟨deltas, -, hnotes, hall⟩ := hends.transcribed.exists_read
  obtain ⟨rfl, htext⟩ := hall hsettled h.stored
  rw [hheard] at hnotes htext
  exact ⟨hnotes, htext⟩

/-- The text of the message. -/
theorem Answered.text (h : Answered handle sessionId run s body response) :
    (executionJournal handle sessionId run s).text = joinText (received body response) :=
  h.transcribed.2

/-- The calls, where each of them came with an id. -/
theorem Answered.calls (h : Answered handle sessionId run s body response)
    (hids : ∀ buffer ∈ (collect (received body response)).1, buffer.callId.isSome = true) :
    (executionJournal handle sessionId run s).calls =
      (collect (received body response)).1.map ToolCallBuffer.emitted := by
  obtain ⟨pairs, hcalls, -, hrecorded, -, hcomplete⟩ := h.transcribed.1.exists_pairs
  rw [← hcomplete h.stored] at hids ⊢
  rw [hcalls, List.map_map]
  refine List.map_congr_left fun pair hpair => ?_
  exact (hrecorded pair hpair).eq_emitted (hids _ (List.mem_map_of_mem hpair))

end Answered

end Piqo
