import PiqoServer.Server.ChatStream

/-!
# Streamed responses

A result of the Responses protocol consists of messages and function calls. In a stream a function
call is announced with its item id, its call id and its name; its arguments end with an event that
carries the item id and the arguments only, and it is that event which is recorded.

## Main definitions

* `ResponsesReply`, `ResponsesEvent`: a result, and an event of the stream for it
* `Narrated`: the events that tell a result
* `ResponsesReply.Streamed`, `ResponsesReply.Sent`: responses that carry a result

## Main results

* `ResponsesReply.Streamed.recorded`, `ResponsesReply.Sent.recorded`: what is recorded of either
* `responses_streaming_agrees_iff`: when the two agree
-/

namespace Piqo

/-! ## Results and their events -/

/-- A function call of a result; its output is expected under the call id. -/
structure FunctionCall where
  itemId : String
  callId : String
  name : String
  arguments : String

inductive OutputItem where
  | message (texts : List String)
  | functionCall (call : FunctionCall)

def OutputItem.text : OutputItem → String
  | .message texts => String.join texts
  | .functionCall _ => ""

def OutputItem.call? : OutputItem → Option FunctionCall
  | .message _ => none
  | .functionCall call => some call

/-- A result of the Responses protocol. -/
structure ResponsesReply where
  items : List OutputItem

def ResponsesReply.text (reply : ResponsesReply) : String :=
  String.join (reply.items.map OutputItem.text)

def ResponsesReply.calls (reply : ResponsesReply) : List FunctionCall :=
  reply.items.filterMap OutputItem.call?

/-- An event of the stream, before its end. -/
inductive ResponsesEvent where
  | textDelta (text : String)
  | itemAdded (call : FunctionCall)
  | argumentsDelta (call : FunctionCall) (piece : String)
  | argumentsDone (call : FunctionCall)
  | other (kind : String)

def ResponsesEvent.text : ResponsesEvent → String
  | .textDelta text => text
  | _ => ""

def ResponsesEvent.done? : ResponsesEvent → Option FunctionCall
  | .argumentsDone call => some call
  | _ => none

/-- The JSON form of an item. -/
def OutputItem.Sent : OutputItem → Json → Prop
  | .message texts, v => v.strAt "type" = some "message" ∧
      (v.itemsAt "content").filterMap (·.strAt "text") = texts
  | .functionCall call, v => v.strAt "type" = some "function_call" ∧
      v.strAt "id" = some call.itemId ∧ v.strAt "call_id" = some call.callId ∧
      v.strAt "name" = some call.name ∧ v.strAt "arguments" = some call.arguments

/-- The JSON form of a result, which states no other type. -/
structure ResponsesReply.Whole (reply : ResponsesReply) (v : Json) : Prop where
  type : v.strAt "type" = none ∨ v.strAt "type" = some "response"
  items : List.Forall₂ OutputItem.Sent reply.items (v.itemsAt "output")

/-- The kinds of events that say something of a result. -/
def spokenKinds : List String := [
  "response.output_text.delta", "response.function_call_arguments.done", "response.completed",
  "response.failed", "error", "response.requires_action", "response", ""]

/-- The JSON form of an event. The one that ends the arguments carries the item id, and neither the
call id nor the name. -/
def ResponsesEvent.Sent (eventType : Option String) (v : Json) : ResponsesEvent → Prop
  | .textDelta text => responsesKind eventType v = "response.output_text.delta" ∧
      v.strAt "delta" = some text
  | .itemAdded call => responsesKind eventType v = "response.output_item.added" ∧
      ∃ item, v.get "item" = some item ∧ item.strAt "id" = some call.itemId ∧
        item.strAt "call_id" = some call.callId ∧ item.strAt "name" = some call.name
  | .argumentsDelta call piece =>
      responsesKind eventType v = "response.function_call_arguments.delta" ∧
      v.strAt "item_id" = some call.itemId ∧ v.strAt "delta" = some piece
  | .argumentsDone call =>
      responsesKind eventType v = "response.function_call_arguments.done" ∧
      v.strAt "item_id" = some call.itemId ∧ v.strAt "name" = none ∧
      v.strAt "arguments" = some call.arguments
  | .other kind => responsesKind eventType v = kind ∧ kind ∉ spokenKinds

/-- Events that tell a result: the text in pieces, and each call ends once. -/
structure Narrated (reply : ResponsesReply) (events : List ResponsesEvent) : Prop where
  text : String.join (events.map ResponsesEvent.text) = reply.text
  calls : (events.filterMap ResponsesEvent.done?).Perm reply.calls

/-- A frame that carries an event. -/
def ResponsesEvent.Frame (fromStr : String → Except String Json) (event : ResponsesEvent)
    (frame : Option String × String) : Prop :=
  isDone frame.2 = false ∧ ∃ v, fromStr frame.2 = .ok v ∧ event.Sent frame.1 v

/-- The frame of the final event. -/
def CompletedFrame (fromStr : String → Except String Json) (frame : Option String × String) : Prop :=
  isDone frame.2 = false ∧ ∃ v, fromStr frame.2 = .ok v ∧
    responsesKind frame.1 v = "response.completed"

/-- A stream that tells a result in some events; its bytes may come in any pieces and at any
time. -/
structure ResponsesReply.Streamed (fromStr : String → Except String Json) (reply : ResponsesReply)
    (events : List ResponsesEvent) (body : Json) (response : ProviderResponse) : Prop where
  mode : bodyStreamMode body = true
  success : response.success = true
  narrated : Narrated reply events
  exists_frames : ∃ items frames rest eventFrames last,
    response.stream = decodeItems (parseSseEvent fromStr .responses) [] items ∧
    (∀ item ∈ items, item.quiet = true) ∧
    sseFrames (items.map ByteItem.bytes) = (frames, .ok rest) ∧
    frames.filter saysSomething = eventFrames ++ [last] ∧ CompletedFrame fromStr last ∧
    List.Forall₂ (ResponsesEvent.Frame fromStr) events eventFrames

/-- A response that is the result as a whole. -/
structure ResponsesReply.Sent (fromStr : String → Except String Json) (reply : ResponsesReply)
    (body : Json) (response : ProviderResponse) : Prop where
  mode : bodyStreamMode body = false
  success : response.success = true
  exists_text : ∃ text v,
    response.text = .text (parseNonStreamResponse fromStr .responses text) ∧
    fromStr text = .ok v ∧ reply.Whole v

/-- A call as it is read of the result as a whole, and of the event that ends its arguments. -/
def FunctionCall.buffer (call : FunctionCall) : ToolCallBuffer :=
  ⟨some call.callId, some call.name, call.arguments⟩

def FunctionCall.doneBuffer (call : FunctionCall) : ToolCallBuffer :=
  ⟨some call.itemId, none, call.arguments⟩

/-! ## A result as a whole -/

theorem says_nil : Says "" [] [] [] := ⟨rfl, rfl, rfl, by simp⟩

theorem says_texts (texts : List String) :
    Says (String.join texts) [] [] (texts.map ProviderDelta.text) where
  text := by
    rw [joinText, List.map_map]
    exact congrArg String.join (List.map_id texts)
  calls := by simp [ProviderDelta.call?]
  pieces := by simp [ProviderDelta.piece?]
  going := by simp

theorem OutputItem.Sent.says {item : OutputItem} {v : Json} (h : item.Sent v) :
    Says item.text (item.call?.toList.map FunctionCall.buffer) [] (parseOutputItem v) := by
  cases item with
  | message texts =>
    obtain ⟨htype, htexts⟩ := h
    rw [parseOutputItem, htype]
    have hdeltas : (v.itemsAt "content").filterMap
        (fun content => (content.strAt "text").map ProviderDelta.text) =
          texts.map ProviderDelta.text := by
      rw [← htexts, List.map_filterMap]
    simp only [hdeltas]
    exact says_texts texts
  | functionCall call =>
    obtain ⟨htype, -, hcallId, hname, harguments⟩ := h
    rw [parseOutputItem, htype]
    simp only [hcallId, hname, harguments, Option.getD_some]
    exact says_toolCalls [call.buffer]

theorem says_items {items : List OutputItem} {vs : List Json}
    (h : List.Forall₂ OutputItem.Sent items vs) :
    Says (String.join (items.map OutputItem.text))
      ((items.filterMap OutputItem.call?).map FunctionCall.buffer) [] (vs.flatMap parseOutputItem) := by
  induction h with
  | nil => exact says_nil
  | @cons item v items vs hitem _ ih =>
    have hall := hitem.says.append ih
    rw [← List.map_append] at hall
    rw [List.map_cons, String.join_cons, List.flatMap_cons, List.filterMap_cons]
    cases hcall : item.call? <;> simpa [hcall] using hall

section Whole

variable {fromStr : String → Except String Json} {reply : ResponsesReply} {body : Json}
  {response : ProviderResponse}

theorem ResponsesReply.Whole.parse {v : Json} (h : reply.Whole v) :
    parseResponsesEvent none v =
      .ok (parseUsage v ++ (v.itemsAt "output").flatMap parseOutputItem) := by
  rcases h.type with htype | htype
  · have hkind : responsesKind none v = "" := by rw [responsesKind, htype]; rfl
    rw [parseResponsesEvent, hkind]
    rfl
  · have hkind : responsesKind none v = "response" := by rw [responsesKind, htype]; rfl
    rw [parseResponsesEvent, hkind]
    rfl

theorem ResponsesReply.Sent.recorded (h : reply.Sent fromStr body response) :
    joinText (received body response) = reply.text ∧
      (collect (received body response)).1 = reply.calls.map FunctionCall.buffer := by
  obtain ⟨text, v, htext, hvalue, hwhole⟩ := h.exists_text
  have hspoken := (says_parseUsage v).append (says_items hwhole.items)
  rw [String.empty_append, List.nil_append, List.nil_append] at hspoken
  have hparsed : parseNonStreamResponse fromStr .responses text =
      .ok (parseUsage v ++ (v.itemsAt "output").flatMap parseOutputItem ++ [.completed]) := by
    rw [parseNonStreamResponse, parseJson, hvalue]
    change (parseResponsesEvent none v >>= fun deltas => _) = _
    rw [hwhole.parse]
    rfl
  rw [hparsed] at htext
  rw [received_whole h.mode h.success htext hspoken.goesOn, joinText_append, hspoken.text]
  exact ⟨String.append_empty, hspoken.collect_of_noPieces⟩

end Whole

/-! ## A result in events -/

theorem parseResponsesEvent_other {eventType : Option String} {v : Json}
    (h : responsesKind eventType v ∉ spokenKinds) : parseResponsesEvent eventType v = .ok [] := by
  simp only [spokenKinds, List.mem_cons, List.not_mem_nil, or_false, not_or] at h
  obtain ⟨hdelta, hdone, hcompleted, hfailed, herror, haction, hresponse, hnone⟩ := h
  unfold parseResponsesEvent
  split
  · exact absurd ‹_› hdelta
  · rfl
  · exact absurd ‹_› hdone
  · exact absurd ‹_› hcompleted
  · exact absurd ‹_› hfailed
  · exact absurd ‹_› herror
  · exact absurd ‹_› haction
  · rfl
  · rfl
  · rfl
  · rfl
  · exact absurd ‹_› hresponse
  · exact absurd ‹_› hnone
  · rfl

section Stream

variable {fromStr : String → Except String Json} {reply : ResponsesReply}
  {events : List ResponsesEvent} {body : Json} {response : ProviderResponse}

theorem ResponsesEvent.Sent.says {event : ResponsesEvent} {eventType : Option String} {v : Json}
    (h : event.Sent eventType v) :
    ∃ deltas, parseResponsesEvent eventType v = .ok deltas ∧
      Says event.text (event.done?.toList.map FunctionCall.doneBuffer) [] deltas := by
  cases event with
  | textDelta text =>
    obtain ⟨hkind, hdelta⟩ := h
    refine ⟨[.text text], ?_, says_texts [text]⟩
    rw [parseResponsesEvent, hkind]
    simp only [hdelta]
  | itemAdded call =>
    obtain ⟨hkind, -⟩ := h
    exact ⟨[], parseResponsesEvent_other (by rw [hkind]; decide), says_nil⟩
  | argumentsDelta call piece =>
    obtain ⟨hkind, -⟩ := h
    exact ⟨[], parseResponsesEvent_other (by rw [hkind]; decide), says_nil⟩
  | argumentsDone call =>
    -- the item id stands in for the call id, and there is no name
    obtain ⟨hkind, hitemId, hname, harguments⟩ := h
    refine ⟨[.toolCall (some call.itemId) none call.arguments], ?_, says_toolCalls [call.doneBuffer]⟩
    rw [parseResponsesEvent, hkind]
    simp only [hitemId, hname, harguments, Option.getD_some]
  | other kind =>
    obtain ⟨hkind, hother⟩ := h
    exact ⟨[], parseResponsesEvent_other (by rwa [hkind]), says_nil⟩

theorem says_eventFrames {frames : List (Option String × String)}
    (h : List.Forall₂ (ResponsesEvent.Frame fromStr) events frames) :
    ∃ groups : List (List ProviderDelta),
      frames.map (fun frame => parseSseEvent fromStr .responses frame.1 frame.2) = groups.map .ok ∧
      Says (String.join (events.map ResponsesEvent.text))
        ((events.filterMap ResponsesEvent.done?).map FunctionCall.doneBuffer) [] groups.flatten := by
  induction h with
  | nil => exact ⟨[], rfl, says_nil⟩
  | @cons event frame events frames hframe _ ih =>
    obtain ⟨groups, hgroups, hspoken⟩ := ih
    obtain ⟨hdone, v, hvalue, hsent⟩ := hframe
    obtain ⟨deltas, hdeltas, hevent⟩ := hsent.says
    refine ⟨deltas :: groups, ?_, ?_⟩
    · rw [List.map_cons, hgroups, parseSseEvent_responses hdone hvalue, hdeltas]
      rfl
    · have hall := hevent.append hspoken
      rw [← List.map_append] at hall
      rw [List.map_cons, String.join_cons, List.flatten_cons, List.filterMap_cons]
      cases hcall : event.done? <;> simpa [hcall] using hall

/-- The final event states the usage and ends the response. -/
theorem CompletedFrame.parse {frame : Option String × String} (h : CompletedFrame fromStr frame) :
    ∃ deltas, parseSseEvent fromStr .responses frame.1 frame.2 = .ok (deltas ++ [.completed]) ∧
      Says "" [] [] deltas := by
  obtain ⟨hdone, v, hvalue, hkind⟩ := h
  rw [parseSseEvent_responses hdone hvalue, parseResponsesEvent, hkind]
  cases responsesUsage : responseUsage v with
  | none => exact ⟨[], rfl, says_nil⟩
  | some usage => exact ⟨[.usage usage], rfl, rfl, rfl, rfl, by simp⟩

theorem ResponsesReply.Streamed.recorded (h : reply.Streamed fromStr events body response) :
    joinText (received body response) = reply.text ∧
      (collect (received body response)).1 =
        (events.filterMap ResponsesEvent.done?).map FunctionCall.doneBuffer := by
  obtain ⟨items, frames, rest, eventFrames, last, hstream, hquiet, hframes, hsome, hlast,
    hevents⟩ := h.exists_frames
  obtain ⟨groups, hgroups, hspoken⟩ := says_eventFrames hevents
  obtain ⟨usage, hparsed, husage⟩ := hlast.parse
  have hparse : parseFrames (parseSseEvent fromStr .responses) frames =
      (groups ++ [usage ++ [ProviderDelta.completed]]).map .ok := by
    change (frames.filter saysSomething).map _ = _
    rw [hsome, List.map_append, hgroups, List.map_singleton, hparsed, List.map_append]
    rfl
  have hall := hspoken.append husage
  simp only [String.append_empty, List.append_nil] at hall
  have hflat : (groups ++ [usage ++ [ProviderDelta.completed]]).flatten =
      groups.flatten ++ usage ++ [.completed] := by simp
  have hreceived := received_stream h.mode h.success hstream hquiet hframes hparse ?_
  · rw [hreceived, hflat, joinText_append, hall.text, h.narrated.text]
    exact ⟨String.append_empty, hall.collect_of_noPieces⟩
  · rw [hflat]
    exact List.forall_mem_append.mpr ⟨fun delta hdelta => (hall.going delta hdelta).2, by simp⟩

end Stream

/-! ## Where the two agree -/

section Agree

variable {σ σ' : Type} {handle : (op : ServerOp) → σ → op.Reply × σ}
  {handle' : (op : ServerOp) → σ' → op.Reply × σ'} {sessionId sessionId' : String}
  {run run' : RunProjection} {s : σ} {s' : σ'} {body body' : Json}
  {response response' : ProviderResponse}

theorem buffers_isSome {calls : List FunctionCall} {f : FunctionCall → ToolCallBuffer}
    (hf : ∀ call, (f call).callId.isSome = true) :
    ∀ buffer ∈ calls.map f, buffer.callId.isSome = true := by
  intro buffer hbuffer
  obtain ⟨call, -, rfl⟩ := List.mem_map.mp hbuffer
  exact hf call

/-- **When streaming agrees with not streaming.** The texts always agree. The calls do, each under
its call id, exactly when every call of the result has its call id for an item id and is one of a
tool named `function`. -/
theorem responses_streaming_agrees_iff (fromStr : String → Except String Json)
    (reply : ResponsesReply) (events : List ResponsesEvent)
    (hstream : Answered handle sessionId run s body response)
    (hwhole : Answered handle' sessionId' run' s' body' response')
    (hstreamed : reply.Streamed fromStr events body response)
    (hsent : reply.Sent fromStr body' response') :
    let j := executionJournal handle sessionId run s
    let j' := executionJournal handle' sessionId' run' s'
    (j.text = j'.text ∧ (∀ call, call ∈ j.calls ↔ call ∈ j'.calls) ∧
      j.calls.map EmittedCall.callId =
        (events.filterMap ResponsesEvent.done?).map FunctionCall.callId) ↔
      ∀ call ∈ reply.calls, call.itemId = call.callId ∧ call.name = "function" := by
  obtain ⟨htext, hcalls⟩ := hstreamed.recorded
  obtain ⟨htext', hcalls'⟩ := hsent.recorded
  have hj : (executionJournal handle sessionId run s).calls =
      ((events.filterMap ResponsesEvent.done?).map FunctionCall.doneBuffer).map
        ToolCallBuffer.emitted := by
    rw [← hcalls]
    refine hstream.calls ?_
    rw [hcalls]
    exact buffers_isSome fun _ => rfl
  have hj' : (executionJournal handle' sessionId' run' s').calls =
      (reply.calls.map FunctionCall.buffer).map ToolCallBuffer.emitted := by
    rw [← hcalls']
    refine hwhole.calls ?_
    rw [hcalls']
    exact buffers_isSome fun _ => rfl
  have hperm := hstreamed.narrated.calls
  dsimp only
  rw [hstream.text, hwhole.text, htext, htext', hj, hj', List.map_map, List.map_map, List.map_map]
  constructor
  · rintro ⟨-, hset, hids⟩ call hcall
    have hid := List.map_inj_left.mp hids call (hperm.mem_iff.mpr hcall)
    refine ⟨hid, ?_⟩
    -- the call as a whole is recorded of the stream, where every call is one of `function`
    have hmem := (hset _).mpr (List.mem_map.mpr ⟨call, hcall, rfl⟩)
    obtain ⟨call', -, heq⟩ := List.mem_map.mp hmem
    exact (congrArg EmittedCall.toolName heq).symm
  · intro hagree
    have hsame : reply.calls.map (ToolCallBuffer.emitted ∘ FunctionCall.buffer) =
        reply.calls.map (ToolCallBuffer.emitted ∘ FunctionCall.doneBuffer) := by
      refine List.map_congr_left fun call hcall => ?_
      obtain ⟨hid, hname⟩ := hagree call hcall
      change EmittedCall.mk call.callId call.name _ = EmittedCall.mk call.itemId "function" _
      rw [hid, hname]
      rfl
    refine ⟨rfl, fun call => ?_, ?_⟩
    · rw [hsame]
      exact (hperm.map _).mem_iff
    · refine List.map_congr_left fun call hcall => ?_
      exact (hagree call (hperm.mem_iff.mp hcall)).1

end Agree

/-! ## A result with a call -/

def callReply (call : FunctionCall) : ResponsesReply := ⟨[.message ["é"], .functionCall call]⟩

def callEvents (call : FunctionCall) : List ResponsesEvent :=
  [.textDelta "é", .itemAdded call, .argumentsDone call]

/-- The texts of its events and of the result as a whole, in parts, and their values. -/
def callTexts (call : FunctionCall) : List (List String × Json) := [
  (["\x7b\"type\":\"response.", "output_text.delta\",", "\"delta\":\"é\"\x7d"],
    .object [("type", .str "response.output_text.delta"), ("delta", .str "é")]),
  (["\x7b\"type\":\"response.", "output_item.added\",", "\"item\":\x7b\"id\":\"", call.itemId,
      "\",\"call_id\":\"", call.callId, "\",\"name\":\"", call.name, "\"\x7d\x7d"],
    .object [("type", .str "response.output_item.added"), ("item", .object [
      ("id", .str call.itemId), ("call_id", .str call.callId), ("name", .str call.name)])]),
  (["\x7b\"type\":\"response.", "function_call_", "arguments.done\",", "\"item_id\":\"",
      call.itemId, "\",\"arguments\":\"", call.arguments, "\"\x7d"],
    .object [("type", .str "response.function_call_arguments.done"),
      ("item_id", .str call.itemId), ("arguments", .str call.arguments)]),
  (["\x7b\"type\":\"response.", "completed\"\x7d"],
    .object [("type", .str "response.completed")]),
  (["\x7b\"output\":[\x7b\"type\":", "\"message\",\"content\":", "[\x7b\"text\":\"é\"\x7d]\x7d,",
      "\x7b\"type\":\"function_", "call\",\"id\":\"", call.itemId, "\",\"call_id\":\"",
      call.callId, "\",\"name\":\"", call.name, "\",\"arguments\":\"", call.arguments,
      "\"\x7d]\x7d"],
    .object [("output", .arr [
      .object [("type", .str "message"), ("content", .arr [.object [("text", .str "é")]])],
      .object [("type", .str "function_call"), ("id", .str call.itemId),
        ("call_id", .str call.callId), ("name", .str call.name),
        ("arguments", .str call.arguments)]])])]

def callText (call : FunctionCall) (n : Nat) : String :=
  String.join (((callTexts call).getD n ([], .null)).1)

def callValue (call : FunctionCall) (n : Nat) : Json := ((callTexts call).getD n ([], .null)).2

def callParser (call : FunctionCall) : String → Except String Json :=
  knownTexts ((callTexts call).map fun entry => (String.join entry.1, entry.2))

/-- Its bytes come at once. -/
def callItems (call : FunctionCall) : List ByteItem :=
  [.chunk (((callTexts call).take 4).flatMap fun entry =>
    ("data: " :: entry.1 ++ ["\n\n"]).flatMap fun part => Utf8.encode part.toList)]

/-- What is parsed of them. -/
def callResponse (call : FunctionCall) : ProviderResponse where
  status := "200 OK"
  success := true
  stream := [.chunk [.ok [.text "é"], .ok [],
    .ok [.toolCall (some call.itemId) none call.arguments], .ok [.completed]]]
  text := .text (.ok [.text "é", .toolCall (some call.callId) (some call.name) call.arguments,
    .completed])

def callFrames (call : FunctionCall) : List (Option String × String) :=
  [0, 1, 2, 3].map fun n => (none, callText call n)

/-- A call whose item id is not its call id. -/
def lookupCall : FunctionCall := ⟨"i", "c", "f", "1"⟩

/-- A call whose item id is its call id, of a tool named `function`. -/
def plainCall : FunctionCall := ⟨"c", "c", "function", "1"⟩

section Call

variable {call : FunctionCall} {body : Json}

/-- What is known of a call and of the texts that carry it. -/
structure CallFacts (call : FunctionCall) : Prop where
  stream : (callResponse call).stream =
    decodeItems (parseSseEvent (callParser call) .responses) [] (callItems call)
  frames : sseFrames ((callItems call).map ByteItem.bytes) = (callFrames call, .ok [])
  said : (callFrames call).filter saysSomething = callFrames call
  notDone : ∀ frame ∈ callFrames call, isDone frame.2 = false
  parsed : ∀ n ∈ [0, 1, 2, 3, 4], callParser call (callText call n) = .ok (callValue call n)
  kinds : [0, 1, 2, 3].map (fun n => responsesKind none (callValue call n)) =
    ["response.output_text.delta", "response.output_item.added",
      "response.function_call_arguments.done", "response.completed"]
  delta : (callValue call 0).strAt "delta" = some "é"
  added : ((callValue call 1).get "item").map (["id", "call_id", "name"].map ·.strAt) =
    some [some call.itemId, some call.callId, some call.name]
  ended : ["item_id", "name", "arguments"].map (callValue call 2).strAt =
    [some call.itemId, none, some call.arguments]
  output : ["type", "id", "call_id", "name", "arguments"].map
      (((callValue call 4).itemsAt "output").getD 1 .null).strAt =
    [some "function_call", some call.itemId, some call.callId, some call.name, some call.arguments]
  text : (callResponse call).text =
    .text (parseNonStreamResponse (callParser call) .responses (callText call 4))
  streamMode : bodyStreamMode (sentBody (callResponse call) []) = true
  wholeMode : bodyStreamMode (sentBody (callResponse call) [("stream", .bool false)]) = false

theorem call_facts (h : call ∈ [lookupCall, plainCall]) : CallFacts call := by
  rcases List.mem_pair.mp h with rfl | rfl
  all_goals constructor <;> decide +kernel

theorem call_streamed (h : call ∈ [lookupCall, plainCall]) (hmode : bodyStreamMode body = true) :
    (callReply call).Streamed (callParser call) (callEvents call) body (callResponse call) := by
  have facts := call_facts h
  have hframe : ∀ n ∈ [0, 1, 2, 3], isDone (callText call n) = false ∧
      callParser call (callText call n) = .ok (callValue call n) := fun n hn =>
    ⟨facts.notDone (none, callText call n) (List.mem_map_of_mem hn),
      facts.parsed n (List.mem_append_left [4] hn)⟩
  obtain ⟨hdone₀, hparse₀⟩ := hframe 0 (by simp)
  obtain ⟨hdone₁, hparse₁⟩ := hframe 1 (by simp)
  obtain ⟨hdone₂, hparse₂⟩ := hframe 2 (by simp)
  obtain ⟨hdone₃, hparse₃⟩ := hframe 3 (by simp)
  have hkinds := facts.kinds
  have hended := facts.ended
  simp only [List.map_cons, List.map_nil, List.cons.injEq, and_true] at hkinds hended
  obtain ⟨hkind₀, hkind₁, hkind₂, hkind₃⟩ := hkinds
  obtain ⟨item, hitem, hfields⟩ := Option.map_eq_some_iff.mp facts.added
  simp only [List.map_cons, List.map_nil, List.cons.injEq, and_true] at hfields
  refine ⟨hmode, rfl, ⟨rfl, List.Perm.refl _⟩, callItems call, callFrames call, [],
    [0, 1, 2].map fun n => (none, callText call n), (none, callText call 3), facts.stream,
    by simp [callItems, ByteItem.quiet], facts.frames, facts.said,
    ⟨hdone₃, _, hparse₃, hkind₃⟩, ?_⟩
  exact .cons ⟨hdone₀, _, hparse₀, hkind₀, facts.delta⟩ (.cons ⟨hdone₁, _, hparse₁, hkind₁, item,
    hitem, hfields⟩ (.cons ⟨hdone₂, _, hparse₂, hkind₂, hended⟩ .nil))

theorem call_sent (h : call ∈ [lookupCall, plainCall]) (hmode : bodyStreamMode body = false) :
    (callReply call).Sent (callParser call) body (callResponse call) := by
  have facts := call_facts h
  have hfields := facts.output
  simp only [List.map_cons, List.map_nil, List.cons.injEq, and_true] at hfields
  exact ⟨hmode, rfl, callText call 4, callValue call 4, facts.text, facts.parsed 4 (by simp),
    .inl rfl, .cons ⟨rfl, rfl⟩ (.cons hfields .nil)⟩

theorem call_answered (h : call ∈ [lookupCall, plainCall]) (fields : List (String × Json))
    (hfields : fields ∈ [[], [("stream", Json.bool false)]]) :
    Answered (World.handle (.answering (callResponse call))) "s" (requestRun fields)
      (requestWorld fields) (sentBody (callResponse call) fields) (callResponse call) := by
  have hall : (((executeRun "s" (requestRun fields)).run
        (World.handle (.answering (callResponse call))) (requestWorld fields)).1.toOption).map
          ExecutionResult.settled = some true ∧
      (requestJournal (callResponse call) fields).faulted = false ∧
      (requestJournal (callResponse call) fields).responses.getLast? =
        some (sentBody (callResponse call) fields, callResponse call) := by
    revert fields
    rcases List.mem_pair.mp h with rfl | rfl <;> decide +kernel
  obtain ⟨hrun, hstored, hlast⟩ := hall
  obtain ⟨result, hresult, hsettled⟩ := Option.map_eq_some_iff.mp hrun
  exact ⟨⟨result, Except.toOption_eq_some.mp hresult, hsettled⟩, hstored, hlast⟩

end Call

/-- A call is recorded under its item id, as one of a tool named `function`. -/
theorem responses_streaming_disagrees :
    let fromStr := callParser lookupCall
    let response := callResponse lookupCall
    let whole := [("stream", Json.bool false)]
    let j := requestJournal response []
    let j' := requestJournal response whole
    Answered (World.handle (.answering response)) "s" (requestRun []) (requestWorld [])
        (sentBody response []) response ∧
      Answered (World.handle (.answering response)) "s" (requestRun whole) (requestWorld whole)
        (sentBody response whole) response ∧
      (callReply lookupCall).Streamed fromStr (callEvents lookupCall) (sentBody response []) response ∧
      (callReply lookupCall).Sent fromStr (sentBody response whole) response ∧
      ¬(j.text = j'.text ∧ (∀ call, call ∈ j.calls ↔ call ∈ j'.calls) ∧
        j.calls.map EmittedCall.callId =
          ((callEvents lookupCall).filterMap ResponsesEvent.done?).map FunctionCall.callId) ∧
      j.calls = [⟨"i", "function", "1"⟩] ∧ j'.calls = [⟨"c", "f", "1"⟩] := by
  have hmem : lookupCall ∈ [lookupCall, plainCall] := by simp
  have hcalls : (requestJournal (callResponse lookupCall) []).calls = [⟨"i", "function", "1"⟩] := by
    decide +kernel
  have hcalls' : (requestJournal (callResponse lookupCall) [("stream", .bool false)]).calls =
      [⟨"c", "f", "1"⟩] := by decide +kernel
  have facts := call_facts hmem
  refine ⟨call_answered hmem [] (by simp), call_answered hmem _ (by simp),
    call_streamed hmem facts.streamMode, call_sent hmem facts.wholeMode, fun ⟨_, hset, _⟩ => ?_, hcalls, hcalls'⟩
  have hrecorded := (hset ⟨"i", "function", "1"⟩).mp (by rw [hcalls]; exact List.mem_cons_self)
  rw [hcalls'] at hrecorded
  simp at hrecorded

theorem responses_streaming_agrees_plain :
    (requestJournal (callResponse plainCall) []).text = "é" ∧
      (requestJournal (callResponse plainCall) []).calls = [⟨"c", "function", "1"⟩] ∧
      ∀ call, call ∈ (requestJournal (callResponse plainCall) []).calls ↔
        call ∈ (requestJournal (callResponse plainCall) [("stream", .bool false)]).calls := by
  have hmem : plainCall ∈ [lookupCall, plainCall] := by simp
  have facts := call_facts hmem
  have hagree := (responses_streaming_agrees_iff (callParser plainCall) (callReply plainCall)
    (callEvents plainCall) (call_answered hmem [] (by simp))
    (call_answered hmem [("stream", .bool false)] (by simp)) (call_streamed hmem facts.streamMode)
    (call_sent hmem facts.wholeMode)).mpr (fun call hcall => by
      obtain rfl := List.mem_singleton.mp hcall
      exact ⟨rfl, rfl⟩)
  exact ⟨by decide +kernel, by decide +kernel, hagree.2.1⟩

end Piqo
