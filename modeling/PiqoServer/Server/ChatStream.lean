import PiqoServer.Server.Transport
import Mathlib.Data.List.Forall2
import Mathlib.Data.List.Induction
import Mathlib.Data.List.Nodup

/-!
# Streamed chat completions

A chat completion may come as a whole or in chunks, with the fragments of its tool calls interleaved
in any order. The pieces are gathered under the index of their call, and what is recorded is the
same.

## Main definitions

* `Gathered`: buffers that hold the pieces of each key
* `ChatReply`, `ChatChunk`: a completion, and a chunk of one
* `Fragmented`: chunks that make up a completion
* `ChatReply.Streamed`, `ChatReply.Sent`: responses that carry a completion

## Main results

* `Gathered.add`, `collect_gathered`: gathering, piece by piece
* `ChatReply.Streamed.recorded`, `ChatReply.Sent.recorded`: what is recorded of either
* `chat_streaming_agrees`: the two agree
-/

namespace Piqo

/-! ## Gathering the pieces of calls -/

/-- A piece of a call. -/
structure CallPiece where
  index : Option Nat
  callId : Option String
  name : Option String
  arguments : String

def CallPiece.delta (piece : CallPiece) : ProviderDelta :=
  .toolCallDelta piece.index piece.callId piece.name piece.arguments

def ProviderDelta.piece? : ProviderDelta → Option CallPiece
  | .toolCallDelta index callId name arguments => some ⟨index, callId, name, arguments⟩
  | _ => none

/-- A call that comes as a whole. -/
def ProviderDelta.call? : ProviderDelta → Option ToolCallBuffer
  | .toolCall callId name arguments => some ⟨callId, name, arguments⟩
  | _ => none

/-- The call that some pieces make up: the first id and the first name count. -/
def ToolCallBuffer.ofPieces (pieces : List CallPiece) : ToolCallBuffer where
  callId := pieces.findSome? CallPiece.callId
  name := pieces.findSome? CallPiece.name
  arguments := String.join (pieces.map CallPiece.arguments)

theorem ToolCallBuffer.ofPieces_snoc (pieces : List CallPiece) (piece : CallPiece) :
    ofPieces (pieces ++ [piece]) =
      { callId := (ofPieces pieces).callId.or piece.callId
        name := (ofPieces pieces).name.or piece.name
        arguments := (ofPieces pieces).arguments ++ piece.arguments } := by
  simp [ofPieces, List.findSome?_append, String.join_append]

/-- The pieces under a key. -/
def piecesAt (key : String) (keyed : List (String × CallPiece)) : List CallPiece :=
  (keyed.filter (·.1 = key)).map Prod.snd

theorem piecesAt_snoc (key : String) (keyed : List (String × CallPiece))
    (entry : String × CallPiece) : piecesAt key (keyed ++ [entry]) =
      piecesAt key keyed ++ if entry.1 = key then [entry.2] else [] := by
  by_cases h : entry.1 = key <;> simp [piecesAt, h]

theorem piecesAt_eq_nil {key : String} {keyed : List (String × CallPiece)}
    (h : key ∉ keyed.map Prod.fst) : piecesAt key keyed = [] := by
  rw [piecesAt, List.map_eq_nil_iff, List.filter_eq_nil_iff]
  intro entry hentry hkey
  exact h (List.mem_map.mpr ⟨entry, hentry, by simpa using hkey⟩)

/-- A buffer for each key, with the pieces under it. -/
structure Gathered (keyed : List (String × CallPiece)) (buffers : List (String × ToolCallBuffer)) :
    Prop where
  nodup : (buffers.map Prod.fst).Nodup
  keys : ∀ key, key ∈ buffers.map Prod.fst ↔ key ∈ keyed.map Prod.fst
  eq_ofPieces : ∀ entry ∈ buffers, entry.2 = .ofPieces (piecesAt entry.1 keyed)

section Gather

variable {key : String} {callId name : Option String} {arguments : String}
  {buffers : List (String × ToolCallBuffer)} {entry : String × ToolCallBuffer}

theorem map_fst_addPiece : (addPiece key callId name arguments buffers).map Prod.fst =
    if key ∈ buffers.map Prod.fst then buffers.map Prod.fst else buffers.map Prod.fst ++ [key] := by
  induction buffers with
  | nil => simp [addPiece]
  | cons first buffers ih =>
    obtain ⟨key', buffer⟩ := first
    rw [addPiece]
    by_cases h : key' = key
    · simp [h]
    · rw [if_neg h, List.map_cons, ih]
      by_cases hmem : key ∈ buffers.map Prod.fst <;> simp [hmem, Ne.symm h]

/-- An entry was there before, or it is the one of the key. -/
theorem mem_addPiece (hnodup : (buffers.map Prod.fst).Nodup)
    (h : entry ∈ addPiece key callId name arguments buffers) :
    entry.1 ≠ key ∧ entry ∈ buffers ∨
      (∃ buffer, (key, buffer) ∈ buffers ∧ entry = (key,
        { callId := buffer.callId.or callId
          name := buffer.name.or name
          arguments := buffer.arguments ++ arguments })) ∨
      key ∉ buffers.map Prod.fst ∧ entry = (key, ⟨callId, name, arguments⟩) := by
  induction buffers with
  | nil => exact .inr (.inr ⟨by simp, by simpa [addPiece] using h⟩)
  | cons first buffers ih =>
    obtain ⟨key', buffer⟩ := first
    rw [List.map_cons, List.nodup_cons] at hnodup
    rw [addPiece] at h
    by_cases hkey : key' = key
    · subst hkey
      rw [if_pos rfl, List.mem_cons] at h
      rcases h with rfl | h
      · exact .inr (.inl ⟨buffer, List.mem_cons_self, rfl⟩)
      · refine .inl ⟨fun heq => hnodup.1 ?_, List.mem_cons_of_mem _ h⟩
        have hmem := List.mem_map_of_mem (f := Prod.fst) h
        rwa [heq] at hmem
    · rw [if_neg hkey, List.mem_cons] at h
      rcases h with rfl | h
      · exact .inl ⟨hkey, List.mem_cons_self⟩
      · rcases ih hnodup.2 h with ⟨hne, hmem⟩ | ⟨buffer', hmem, heq⟩ | ⟨hnew, heq⟩
        · exact .inl ⟨hne, List.mem_cons_of_mem _ hmem⟩
        · exact .inr (.inl ⟨buffer', List.mem_cons_of_mem _ hmem, heq⟩)
        · refine .inr (.inr ⟨?_, heq⟩)
          rw [List.map_cons, List.mem_cons]
          exact not_or.mpr ⟨Ne.symm hkey, hnew⟩

theorem Gathered.nil : Gathered [] [] := ⟨List.nodup_nil, by simp, by simp⟩

/-- One more piece. -/
theorem Gathered.add {keyed : List (String × CallPiece)} (h : Gathered keyed buffers) (key : String)
    (piece : CallPiece) : Gathered (keyed ++ [(key, piece)])
      (addPiece key piece.callId piece.name piece.arguments buffers) where
  nodup := by
    rw [map_fst_addPiece]
    split
    · exact h.nodup
    · next hnew =>
      refine List.nodup_append.mpr ⟨h.nodup, by simp, fun a ha b hb heq => hnew ?_⟩
      rwa [← List.mem_singleton.mp hb, ← heq]
  keys key' := by
    rw [map_fst_addPiece, List.map_append, List.mem_append, ← h.keys]
    split
    · next hmem =>
      simp only [List.map_cons, List.map_nil, List.mem_singleton]
      exact ⟨.inl, fun h' => h'.elim id fun heq => heq ▸ hmem⟩
    · exact List.mem_append
  eq_ofPieces entry hentry := by
    rw [piecesAt_snoc]
    rcases mem_addPiece h.nodup hentry with ⟨hne, hmem⟩ | ⟨buffer, hmem, rfl⟩ | ⟨hnew, rfl⟩
    · rw [if_neg (Ne.symm hne), List.append_nil]
      exact h.eq_ofPieces entry hmem
    · have hbuffer : buffer = .ofPieces (piecesAt key keyed) := h.eq_ofPieces _ hmem
      rw [if_pos rfl, ToolCallBuffer.ofPieces_snoc, ← hbuffer]
    · have hnone : piecesAt key keyed = [] := piecesAt_eq_nil (mt (h.keys key).mpr hnew)
      rw [if_pos rfl, hnone, ToolCallBuffer.ofPieces_snoc]
      simp [ToolCallBuffer.ofPieces]

end Gather

/-- The key of a piece with an index, and of one with an id only. -/
structure CallPiece.KeyedAs (piece : CallPiece) (key : String) : Prop where
  index : ∀ index, piece.index = some index → key = streamIndex index
  callId : piece.index = none → ∀ id, piece.callId = some id → key = id

/-- **Gathering.** Before the end of the response the calls that come as a whole are complete, and
the pieces of the others are gathered. -/
theorem collect_gathered {deltas : List ProviderDelta} (h : ∀ delta ∈ deltas, delta ≠ .completed) :
    (collect deltas).1 = deltas.filterMap ProviderDelta.call? ∧
      ∃ keyed : List (String × CallPiece),
        keyed.map Prod.snd = deltas.filterMap ProviderDelta.piece? ∧
        (∀ entry ∈ keyed, entry.2.KeyedAs entry.1) ∧ Gathered keyed (collect deltas).2 := by
  induction deltas using List.reverseRecOn with
  | nil => exact ⟨rfl, [], rfl, by simp, .nil⟩
  | append_singleton deltas delta ih =>
    obtain ⟨hdeltas, hdelta⟩ := List.forall_mem_append.mp h
    obtain ⟨hcalls, keyed, hpieces, hkeys, hgathered⟩ := ih hdeltas
    rw [collect_snoc, List.filterMap_append, List.filterMap_append, ← hcalls, ← hpieces]
    cases delta with
    | toolCallDelta index callId name arguments =>
      refine ⟨(List.append_nil _).symm, keyed ++ [(toolBufferKey (collect deltas).2 index callId,
        ⟨index, callId, name, arguments⟩)], by simp [ProviderDelta.piece?], ?_, hgathered.add _ _⟩
      refine List.forall_mem_append.mpr ⟨hkeys, List.forall_mem_singleton.mpr ⟨?_, ?_⟩⟩
      · rintro i rfl
        rfl
      · rintro rfl id rfl
        rfl
    | completed => exact absurd rfl (hdelta _ (List.mem_singleton.mpr rfl))
    | toolCall callId name arguments =>
      exact ⟨rfl, keyed, (List.append_nil _).symm, hkeys, hgathered⟩
    | text text => exact ⟨(List.append_nil _).symm, keyed, (List.append_nil _).symm, hkeys, hgathered⟩
    | usage value =>
      exact ⟨(List.append_nil _).symm, keyed, (List.append_nil _).symm, hkeys, hgathered⟩
    | requiresAction =>
      exact ⟨(List.append_nil _).symm, keyed, (List.append_nil _).symm, hkeys, hgathered⟩

theorem streamIndex_injective : Function.Injective streamIndex := by
  intro m n h
  have hrepr : m.repr = n.repr := by simpa [streamIndex] using h
  have hdigits := congrArg String.toList hrepr
  rw [Nat.toList_repr, Nat.toList_repr] at hdigits
  simpa using congrArg (Nat.ofDigitChars 10 · 0) hdigits

/-! ## Completions and their chunks -/

/-- A tool call of a completion; the index is that of its fragments. -/
structure ChatCall where
  index : Nat
  id : String
  name : String
  arguments : String

/-- A chat completion with one choice. -/
structure ChatReply where
  text : String
  calls : List ChatCall
  indexes_nodup : (calls.map ChatCall.index).Nodup
  ids_nodup : (calls.map ChatCall.id).Nodup

/-- A fragment of a tool call, which may carry its id and its name. -/
structure ChatFragment where
  index : Nat
  head : Option (String × String)
  arguments : String

/-- A chunk of a streamed completion. -/
structure ChatChunk where
  content : String
  fragments : List ChatFragment

/-- The JSON form of a call in a completion. -/
structure ChatCall.Sent (call : ChatCall) (v : Json) : Prop where
  id : v.strAt "id" = some call.id
  name : (v.get "function").bind (·.strAt "name") = some call.name
  arguments : (v.get "function").bind (·.strAt "arguments") = some call.arguments

structure ChatFragment.Sent (fragment : ChatFragment) (v : Json) : Prop where
  index : (v.get "index").bind Json.asU64? = some fragment.index
  id : v.strAt "id" = fragment.head.map Prod.fst
  name : (v.get "function").bind (·.strAt "name") = fragment.head.map Prod.snd
  arguments : ((v.get "function").bind (·.strAt "arguments")).getD "" = fragment.arguments

/-- The message of a completion. -/
structure ChatReply.SentAs (reply : ChatReply) (message : Json) : Prop where
  text : (message.strAt "content").getD "" = reply.text
  calls : List.Forall₂ ChatCall.Sent reply.calls (message.itemsAt "tool_calls")

structure ChatChunk.SentAs (chunk : ChatChunk) (delta : Json) : Prop where
  content : (delta.strAt "content").getD "" = chunk.content
  fragments : List.Forall₂ ChatFragment.Sent chunk.fragments (delta.itemsAt "tool_calls")

/-- The JSON form of a completion: one choice with a message. -/
def ChatReply.Whole (reply : ChatReply) (v : Json) : Prop :=
  ∃ choice message, v.itemsAt "choices" = [choice] ∧ choice.get "delta" = none ∧
    choice.get "message" = some message ∧ reply.SentAs message

/-- The JSON form of a chunk: one choice with a delta, or none where the chunk states the usage. -/
def ChatChunk.Sent (chunk : ChatChunk) (v : Json) : Prop :=
  v.itemsAt "choices" = [] ∧ chunk = ⟨"", []⟩ ∨
    ∃ choice delta, v.itemsAt "choices" = [choice] ∧ choice.get "delta" = some delta ∧
      chunk.SentAs delta

/-- Chunks that make up a completion: the text is split anywhere, the fragments of a call are in
order, the first of them with the id and the name, and those of different calls in any order. -/
structure Fragmented (reply : ChatReply) (chunks : List ChatChunk) : Prop where
  text : String.join (chunks.map ChatChunk.content) = reply.text
  known : ∀ fragment ∈ chunks.flatMap ChatChunk.fragments,
    ∃ call ∈ reply.calls, fragment.index = call.index
  calls : ∀ call ∈ reply.calls, ∃ first rest,
    (chunks.flatMap ChatChunk.fragments).filter (·.index = call.index) = first :: rest ∧
    first.head = some (call.id, call.name) ∧
    String.join ((first :: rest).map ChatFragment.arguments) = call.arguments

/-- A frame that carries a chunk. -/
def ChatChunk.Frame (fromStr : String → Except String Json) (chunk : ChatChunk)
    (frame : Option String × String) : Prop :=
  isDone frame.2 = false ∧ ∃ v, fromStr frame.2 = .ok v ∧ chunk.Sent v

/-- A frame that says something. -/
def saysSomething (frame : Option String × String) : Bool := !(trim frame.2).isEmpty

/-- A stream that carries a completion in chunks, with a final `[DONE]`; its bytes may come in any
pieces and at any time. -/
structure ChatReply.Streamed (fromStr : String → Except String Json) (reply : ChatReply)
    (body : Json) (response : ProviderResponse) : Prop where
  mode : bodyStreamMode body = true
  success : response.success = true
  exists_frames : ∃ items frames rest chunks chunkFrames done,
    response.stream = decodeItems (parseSseEvent fromStr .chatCompletions) [] items ∧
    (∀ item ∈ items, item.quiet = true) ∧
    sseFrames (items.map ByteItem.bytes) = (frames, .ok rest) ∧
    frames.filter saysSomething = chunkFrames ++ [done] ∧ isDone done.2 = true ∧
    List.Forall₂ (ChatChunk.Frame fromStr) chunks chunkFrames ∧ Fragmented reply chunks

/-- A response that is the completion as a whole. -/
structure ChatReply.Sent (fromStr : String → Except String Json) (reply : ChatReply) (body : Json)
    (response : ProviderResponse) : Prop where
  mode : bodyStreamMode body = false
  success : response.success = true
  exists_text : ∃ text v,
    response.text = .text (parseNonStreamResponse fromStr .chatCompletions text) ∧
    fromStr text = .ok v ∧ reply.Whole v

/-! ## A completion as a whole -/

def ChatCall.buffer (call : ChatCall) : ToolCallBuffer := ⟨some call.id, some call.name, call.arguments⟩

theorem parseUsage_aside {v : Json} {delta : ProviderDelta} (h : delta ∈ parseUsage v) :
    ∃ usage, delta = .usage usage := by
  unfold parseUsage at h
  split at h
  · split at h
    · cases h
    · exact ⟨_, List.mem_singleton.mp h⟩
  · cases h

theorem joinText_parseUsage (v : Json) : joinText (parseUsage v) = "" := by
  refine joinText_of_quiet ?_
  rw [List.any_eq_false]
  rintro delta hdelta
  obtain ⟨usage, rfl⟩ := parseUsage_aside hdelta
  simp [ProviderDelta.isContent]

theorem joinText_parseChatText (v : Json) :
    joinText (parseChatText v) = (v.strAt "content").getD "" := by
  unfold parseChatText
  cases v.strAt "content" with
  | none => rfl
  | some text =>
    by_cases h : text.isEmpty
    · simp [String.isEmpty_iff.mp h, joinText]
    · simp [h, joinText, ProviderDelta.textOf]

theorem parseChatText_aside {v : Json} {delta : ProviderDelta} (h : delta ∈ parseChatText v) :
    ∃ text, delta = .text text := by
  unfold parseChatText at h
  split at h
  · split at h
    · cases h
    · exact ⟨_, List.mem_singleton.mp h⟩
  · cases h

theorem map_eq_of_forall₂ {α β γ : Type} {R : α → β → Prop} {f : α → γ} {g : β → γ} {as : List α}
    {bs : List β} (h : List.Forall₂ R as bs) (heq : ∀ a b, R a b → g b = f a) :
    bs.map g = as.map f := by
  have hmap : List.Forall₂ Eq (bs.map g) (as.map f) := by
    rw [List.forall₂_map_left_iff, List.forall₂_map_right_iff]
    exact (h.imp heq).flip
  rwa [List.forall₂_eq_eq_eq] at hmap

/-- What some pieces of a completion say: text, calls that come as a whole, and pieces of calls. -/
structure Says (text : String) (calls : List ToolCallBuffer) (pieces : List CallPiece)
    (deltas : List ProviderDelta) : Prop where
  text : joinText deltas = text
  calls : deltas.filterMap ProviderDelta.call? = calls
  pieces : deltas.filterMap ProviderDelta.piece? = pieces
  going : ∀ delta ∈ deltas, delta ≠ .completed ∧ delta ≠ .requiresAction

section Says

variable {text text' : String} {calls calls' : List ToolCallBuffer} {pieces pieces' : List CallPiece}
  {deltas deltas' : List ProviderDelta}

theorem Says.append (h : Says text calls pieces deltas) (h' : Says text' calls' pieces' deltas') :
    Says (text ++ text') (calls ++ calls') (pieces ++ pieces') (deltas ++ deltas') where
  text := by rw [joinText_append, h.text, h'.text]
  calls := by rw [List.filterMap_append, h.calls, h'.calls]
  pieces := by rw [List.filterMap_append, h.pieces, h'.pieces]
  going := List.forall_mem_append.mpr ⟨h.going, h'.going⟩

theorem says_parseUsage (v : Json) : Says "" [] [] (parseUsage v) where
  text := joinText_parseUsage v
  calls := by
    refine List.filterMap_eq_nil_iff.mpr fun delta hdelta => ?_
    obtain ⟨usage, rfl⟩ := parseUsage_aside hdelta
    rfl
  pieces := by
    refine List.filterMap_eq_nil_iff.mpr fun delta hdelta => ?_
    obtain ⟨usage, rfl⟩ := parseUsage_aside hdelta
    rfl
  going delta hdelta := by
    obtain ⟨usage, rfl⟩ := parseUsage_aside hdelta
    simp

theorem says_parseChatText (v : Json) :
    Says ((v.strAt "content").getD "") [] [] (parseChatText v) where
  text := joinText_parseChatText v
  calls := by
    refine List.filterMap_eq_nil_iff.mpr fun delta hdelta => ?_
    obtain ⟨text, rfl⟩ := parseChatText_aside hdelta
    rfl
  pieces := by
    refine List.filterMap_eq_nil_iff.mpr fun delta hdelta => ?_
    obtain ⟨text, rfl⟩ := parseChatText_aside hdelta
    rfl
  going delta hdelta := by
    obtain ⟨text, rfl⟩ := parseChatText_aside hdelta
    simp

/-- Calls as a whole. -/
theorem says_toolCalls (buffers : List ToolCallBuffer) : Says "" buffers []
    (buffers.map fun buffer => .toolCall buffer.callId buffer.name buffer.arguments) where
  text := by
    induction buffers with
    | nil => rfl
    | cons buffer buffers ih => simpa [joinText, ProviderDelta.textOf] using ih
  calls := by simp [ProviderDelta.call?, Function.comp_def]
  pieces := by simp [ProviderDelta.piece?]
  going := by simp

/-- Pieces of calls. -/
theorem says_pieces (pieces : List CallPiece) : Says "" [] pieces (pieces.map CallPiece.delta) where
  text := by
    induction pieces with
    | nil => rfl
    | cons piece pieces ih => simpa [joinText, CallPiece.delta, ProviderDelta.textOf] using ih
  calls := by simp [ProviderDelta.call?, CallPiece.delta]
  pieces := by simp [ProviderDelta.piece?, CallPiece.delta, Function.comp_def]
  going := by simp [CallPiece.delta]

/-- **What is collected** of pieces that are followed by the end of the response. -/
theorem Says.collect (h : Says text calls pieces deltas) :
    ∃ (keyed : List (String × CallPiece)) (buffers : List (String × ToolCallBuffer)),
      keyed.map Prod.snd = pieces ∧ (∀ entry ∈ keyed, entry.2.KeyedAs entry.1) ∧
      Gathered keyed buffers ∧
      (Piqo.collect (deltas ++ [.completed])).1 = calls ++ buffers.map Prod.snd := by
  obtain ⟨hcalls, keyed, hpieces, hkeys, hgathered⟩ := collect_gathered fun d hd => (h.going d hd).1
  refine ⟨keyed, (Piqo.collect deltas).2, hpieces.trans h.pieces, hkeys, hgathered, ?_⟩
  rw [collect_snoc, ← h.calls, ← hcalls]
  rfl

theorem Says.collect_of_noPieces (h : Says text calls [] deltas) :
    (Piqo.collect (deltas ++ [.completed])).1 = calls := by
  obtain ⟨keyed, buffers, hpieces, -, hgathered, hcollect⟩ := h.collect
  have hbuffers : buffers = [] := by
    refine List.eq_nil_iff_forall_not_mem.mpr fun entry hentry => ?_
    have hkey := (hgathered.keys entry.1).mp (List.mem_map_of_mem hentry)
    rw [List.map_eq_nil_iff.mp hpieces] at hkey
    cases hkey
  rw [hcollect, hbuffers, List.map_nil, List.append_nil]

/-- Nothing that has no pieces of calls stops the reading of a response as a whole. -/
theorem Says.goesOn (h : Says text calls [] deltas) :
    ∀ delta ∈ deltas ++ [.completed], delta.stops = false := by
  refine List.forall_mem_append.mpr ⟨fun delta hdelta => ?_, by simp [ProviderDelta.stops]⟩
  have hpiece := List.filterMap_eq_nil_iff.mp h.pieces delta hdelta
  have hgoing := h.going delta hdelta
  cases delta with
  | toolCallDelta index callId name arguments => cases hpiece
  | requiresAction => exact absurd rfl hgoing.2
  | _ => rfl

end Says

/-! ## A completion as a whole -/

section Whole

variable {fromStr : String → Except String Json} {reply : ChatReply} {body : Json}
  {response : ProviderResponse}

theorem ChatCall.Sent.parse {call : ChatCall} {v : Json} (h : call.Sent v) :
    parseChatCall false v = .toolCall call.buffer.callId call.buffer.name call.buffer.arguments := by
  simp only [parseChatCall, h.id, h.name, h.arguments, Option.some_or, Option.getD_some,
    Bool.false_eq_true, ↓reduceIte, ChatCall.buffer]

theorem ChatReply.Whole.says {v : Json} (h : reply.Whole v) :
    Says reply.text (reply.calls.map ChatCall.buffer) [] (parseChatEvent false v) := by
  obtain ⟨choice, message, hchoices, hdelta, hmessage, hsent⟩ := h
  have hcalls : (message.itemsAt "tool_calls").map (parseChatCall false) =
      (reply.calls.map ChatCall.buffer).map fun buffer =>
        .toolCall buffer.callId buffer.name buffer.arguments := by
    rw [List.map_map]
    exact map_eq_of_forall₂ hsent.calls fun call v hcall => hcall.parse
  rw [parseChatEvent, hchoices, List.flatMap_singleton, parseChoice, hdelta, hmessage,
    Option.none_or]
  simp only [hcalls]
  have htext := says_parseChatText message
  rw [hsent.text] at htext
  have hspoken := (says_parseUsage v).append (htext.append (says_toolCalls (reply.calls.map ChatCall.buffer)))
  simpa using hspoken

theorem ChatReply.Sent.recorded (h : reply.Sent fromStr body response) :
    joinText (received body response) = reply.text ∧
      (collect (received body response)).1 = reply.calls.map ChatCall.buffer := by
  obtain ⟨text, v, htext, hvalue, hwhole⟩ := h.exists_text
  have hspoken := hwhole.says
  have hparsed : parseNonStreamResponse fromStr .chatCompletions text =
      .ok (parseChatEvent false v ++ [.completed]) := by
    rw [parseNonStreamResponse, parseJson, hvalue]
    rfl
  rw [hparsed] at htext
  rw [received_whole h.mode h.success htext hspoken.goesOn, joinText_append, hspoken.text]
  exact ⟨String.append_empty, hspoken.collect_of_noPieces⟩

end Whole

/-! ## A completion in chunks -/

/-- A fragment as it is parsed: one without an id gets that of its index. -/
def ChatFragment.piece (fragment : ChatFragment) : CallPiece where
  index := some fragment.index
  callId := (fragment.head.map Prod.fst).or (some (streamIndex fragment.index))
  name := fragment.head.map Prod.snd
  arguments := fragment.arguments

section Stream

variable {fromStr : String → Except String Json} {reply : ChatReply} {chunks : List ChatChunk}
  {body : Json} {response : ProviderResponse}

theorem ChatFragment.Sent.parse {fragment : ChatFragment} {v : Json} (h : fragment.Sent v) :
    parseChatCall true v = fragment.piece.delta := by
  simp only [parseChatCall, h.index, h.id, h.name, h.arguments, ↓reduceIte, Option.map_some,
    CallPiece.delta, ChatFragment.piece]

theorem ChatChunk.Sent.says {chunk : ChatChunk} {v : Json} (h : chunk.Sent v) :
    Says chunk.content [] (chunk.fragments.map ChatFragment.piece) (parseChatEvent true v) := by
  rcases h with ⟨hchoices, rfl⟩ | ⟨choice, delta, hchoices, hdelta, hsent⟩
  · rw [parseChatEvent, hchoices, List.flatMap_nil, List.append_nil]
    exact says_parseUsage v
  · have hpieces : (delta.itemsAt "tool_calls").map (parseChatCall true) =
        (chunk.fragments.map ChatFragment.piece).map CallPiece.delta := by
      rw [List.map_map]
      exact map_eq_of_forall₂ hsent.fragments fun fragment v hfragment => hfragment.parse
    rw [parseChatEvent, hchoices, List.flatMap_singleton, parseChoice, hdelta, Option.some_or]
    simp only [hpieces]
    have htext := says_parseChatText delta
    rw [hsent.content] at htext
    have hspoken := (says_parseUsage v).append
      (htext.append (says_pieces (chunk.fragments.map ChatFragment.piece)))
    simpa using hspoken

/-- The frames of the chunks are parsed. -/
theorem says_frames {frames : List (Option String × String)}
    (h : List.Forall₂ (ChatChunk.Frame fromStr) chunks frames) :
    ∃ groups : List (List ProviderDelta),
      frames.map (fun frame => parseSseEvent fromStr .chatCompletions frame.1 frame.2) =
        groups.map .ok ∧
      Says (String.join (chunks.map ChatChunk.content)) []
        ((chunks.flatMap ChatChunk.fragments).map ChatFragment.piece) groups.flatten := by
  induction h with
  | nil => exact ⟨[], rfl, rfl, rfl, rfl, by simp⟩
  | cons hframe _ ih =>
    obtain ⟨groups, hgroups, hspoken⟩ := ih
    obtain ⟨hdone, v, hvalue, hsent⟩ := hframe
    refine ⟨parseChatEvent true v :: groups, ?_, ?_⟩
    · rw [List.map_cons, hgroups, parseSseEvent_chat hdone hvalue]
      rfl
    · have hall := hsent.says.append hspoken
      simpa [String.join_cons] using hall

/-- The pieces under the index of a call. -/
theorem piecesAt_fragments (fragments : List ChatFragment) (index : Nat) :
    piecesAt (streamIndex index)
        (fragments.map fun fragment => (streamIndex fragment.index, fragment.piece)) =
      (fragments.filter (·.index = index)).map ChatFragment.piece := by
  rw [piecesAt, List.filter_map, List.map_map]
  refine congrArg (List.map ChatFragment.piece) (List.filter_congr fun fragment _ => ?_)
  exact decide_eq_decide.mpr ⟨fun h => streamIndex_injective h, fun h => congrArg streamIndex h⟩

/-- The fragments of a call make up the call. -/
theorem ofPieces_fragments {call : ChatCall} {first : ChatFragment} {rest : List ChatFragment}
    (hhead : first.head = some (call.id, call.name))
    (harguments : String.join ((first :: rest).map ChatFragment.arguments) = call.arguments) :
    .ofPieces ((first :: rest).map ChatFragment.piece) = call.buffer := by
  have hid : first.piece.callId = some call.id := by rw [ChatFragment.piece, hhead]; rfl
  have hname : first.piece.name = some call.name := by rw [ChatFragment.piece, hhead]; rfl
  rw [ToolCallBuffer.ofPieces, List.map_cons, List.findSome?_cons_of_isSome (by simp [hid]),
    List.findSome?_cons_of_isSome (by simp [hname]), hid, hname, ← List.map_cons, List.map_map]
  exact congrArg (ToolCallBuffer.mk (some call.id) (some call.name)) harguments

/-- **The fragments make up the calls**, in any order of the calls. -/
theorem Fragmented.gathered (h : Fragmented reply chunks) {buffers : List (String × ToolCallBuffer)}
    (hgathered : Gathered ((chunks.flatMap ChatChunk.fragments).map fun fragment =>
      (streamIndex fragment.index, fragment.piece)) buffers) :
    (buffers.map Prod.snd).Perm (reply.calls.map ChatCall.buffer) := by
  -- the buffer under the index of a call is the call
  have hcall : ∀ entry ∈ buffers, ∀ call ∈ reply.calls, entry.1 = streamIndex call.index →
      entry.2 = call.buffer := by
    intro entry hentry call hcall hkey
    obtain ⟨first, rest, hfilter, hhead, harguments⟩ := h.calls call hcall
    rw [hgathered.eq_ofPieces entry hentry, hkey, piecesAt_fragments, hfilter]
    exact ofPieces_fragments hhead harguments
  have hperm : buffers.Perm (reply.calls.map fun call => (streamIndex call.index, call.buffer)) := by
    refine (List.perm_ext_iff_of_nodup (List.Nodup.of_map _ hgathered.nodup) ?_).mpr fun entry => ?_
    · refine List.Nodup.of_map Prod.fst ?_
      rw [List.map_map]
      have hkeys := reply.indexes_nodup.map streamIndex_injective
      rwa [List.map_map] at hkeys
    · constructor
      · intro hentry
        have hkey := (hgathered.keys entry.1).mp (List.mem_map_of_mem hentry)
        rw [List.map_map] at hkey
        obtain ⟨fragment, hfragment, hindex⟩ := List.mem_map.mp hkey
        obtain ⟨call, hmem, heq⟩ := h.known fragment hfragment
        have hentryKey : entry.1 = streamIndex call.index := by rw [← hindex, ← heq]; rfl
        refine List.mem_map.mpr ⟨call, hmem, Prod.ext hentryKey.symm ?_⟩
        exact (hcall entry hentry call hmem hentryKey).symm
      · intro hentry
        obtain ⟨call, hmem, rfl⟩ := List.mem_map.mp hentry
        obtain ⟨first, rest, hfilter, -⟩ := h.calls call hmem
        have hfirst : first ∈ (chunks.flatMap ChatChunk.fragments).filter (·.index = call.index) := by
          rw [hfilter]
          exact List.mem_cons_self
        obtain ⟨hfragment, hindex⟩ := List.mem_filter.mp hfirst
        have hkey : streamIndex call.index ∈ buffers.map Prod.fst := by
          rw [hgathered.keys, List.map_map]
          exact List.mem_map.mpr ⟨first, hfragment, congrArg streamIndex (by simpa using hindex)⟩
        obtain ⟨found, hfound, hfoundKey⟩ := List.mem_map.mp hkey
        have heq : found = (streamIndex call.index, call.buffer) :=
          Prod.ext hfoundKey (hcall found hfound call hmem hfoundKey)
        rwa [← heq]
  have hcalls := hperm.map Prod.snd
  rwa [List.map_map] at hcalls

theorem ChatReply.Streamed.recorded (h : reply.Streamed fromStr body response) :
    joinText (received body response) = reply.text ∧
      (collect (received body response)).1.Perm (reply.calls.map ChatCall.buffer) := by
  obtain ⟨items, frames, rest, chunks, chunkFrames, done, hstream, hquiet, hframes, hsome, hdone,
    hchunks, hfragmented⟩ := h.exists_frames
  obtain ⟨groups, hgroups, hspoken⟩ := says_frames hchunks
  have hparse : parseFrames (parseSseEvent fromStr .chatCompletions) frames =
      (groups ++ [[ProviderDelta.completed]]).map .ok := by
    change (frames.filter saysSomething).map _ = _
    rw [hsome, List.map_append, hgroups, List.map_singleton, parseSseEvent_done hdone,
      List.map_append]
    rfl
  have hreceived := received_stream h.mode h.success hstream hquiet hframes hparse ?_
  · rw [hreceived, List.flatten_append, List.flatten_singleton, joinText_append, hspoken.text,
      hfragmented.text]
    refine ⟨String.append_empty, ?_⟩
    obtain ⟨keyed, buffers, hpieces, hkeys, hgathered, hcollect⟩ := hspoken.collect
    rw [hcollect, List.nil_append]
    have hkeyed : keyed = (chunks.flatMap ChatChunk.fragments).map fun fragment =>
        (streamIndex fragment.index, fragment.piece) := by
      -- every piece has an index, under which it is gathered
      have hkeyed : (keyed.map Prod.snd).map (fun piece => (streamIndex (piece.index.getD 0), piece)) =
          keyed := by
        rw [List.map_map]
        conv_rhs => rw [← List.map_id keyed]
        refine List.map_congr_left fun entry hentry => ?_
        have hmem := List.mem_map_of_mem (f := Prod.snd) hentry
        rw [hpieces] at hmem
        obtain ⟨fragment, -, hpiece⟩ := List.mem_map.mp hmem
        have hindex : entry.2.index = some fragment.index := by rw [← hpiece]; rfl
        refine Prod.ext ?_ rfl
        change streamIndex (entry.2.index.getD 0) = entry.1
        rw [(hkeys entry hentry).index _ hindex, hindex, Option.getD_some]
      rw [← hkeyed, hpieces, List.map_map]
      rfl
    rw [hkeyed] at hgathered
    exact hfragmented.gathered hgathered
  · rw [List.flatten_append, List.flatten_singleton]
    exact List.forall_mem_append.mpr ⟨fun delta hdelta => (hspoken.going delta hdelta).2, by simp⟩

end Stream

/-! ## The two agree -/

section Agree

variable {σ σ' : Type} {handle : (op : ServerOp) → σ → op.Reply × σ}
  {handle' : (op : ServerOp) → σ' → op.Reply × σ'} {sessionId sessionId' : String}
  {run run' : RunProjection} {s : σ} {s' : σ'} {body body' : Json}
  {response response' : ProviderResponse}

theorem ChatReply.emitted_buffers (reply : ChatReply) :
    ∀ buffer ∈ reply.calls.map ChatCall.buffer, buffer.callId.isSome = true := by
  intro buffer hbuffer
  obtain ⟨call, -, rfl⟩ := List.mem_map.mp hbuffer
  rfl

/-- **Streaming agrees with not streaming.** An execution that a chat completion reaches in chunks
and one that it reaches as a whole record the same text and the same calls, whatever the chunks and
the bytes they come in, and whatever else happens in the two executions. -/
theorem chat_streaming_agrees (fromStr : String → Except String Json) (reply : ChatReply)
    (hstream : Answered handle sessionId run s body response)
    (hwhole : Answered handle' sessionId' run' s' body' response')
    (hstreamed : reply.Streamed fromStr body response)
    (hsent : reply.Sent fromStr body' response') :
    let j := executionJournal handle sessionId run s
    let j' := executionJournal handle' sessionId' run' s'
    j.text = j'.text ∧ j.calls.Perm j'.calls ∧
      j'.text = reply.text ∧
      j'.calls = reply.calls.map fun call => ⟨call.id, call.name, call.arguments⟩ := by
  obtain ⟨htext, hcalls⟩ := hstreamed.recorded
  obtain ⟨htext', hcalls'⟩ := hsent.recorded
  have hids := reply.emitted_buffers
  have hj : (executionJournal handle sessionId run s).calls.Perm
      ((reply.calls.map ChatCall.buffer).map ToolCallBuffer.emitted) := by
    rw [hstream.calls fun buffer hbuffer => hids buffer (hcalls.subset hbuffer)]
    exact hcalls.map _
  have hj' : (executionJournal handle' sessionId' run' s').calls =
      (reply.calls.map ChatCall.buffer).map ToolCallBuffer.emitted := by
    rw [← hcalls']
    refine hwhole.calls ?_
    rwa [hcalls']
  dsimp only
  refine ⟨by rw [hstream.text, hwhole.text, htext, htext'], by rwa [hj'],
    hwhole.text.trans htext', ?_⟩
  rw [hj', List.map_map]
  rfl

end Agree

/-! ## A completion with a call -/

/-- A parser that knows some texts. -/
def knownTexts (known : List (String × Json)) (text : String) : Except String Json :=
  match known.find? (·.1 = text) with
  | some (_, v) => .ok v
  | none => .error "expected value at line 1 column 1"

def choiceJson (key : String) (content : List (String × Json)) (call : List (String × Json)) : Json :=
  .object [("choices", .arr [.object [(key,
    .object (content ++ [("tool_calls", .arr [.object call])]))]])]

def oneCall : ChatReply where
  text := "é"
  calls := [⟨0, "a", "f", "1"⟩]
  indexes_nodup := by decide
  ids_nodup := by decide

/-- Its first chunk, with the text and the head of the call. -/
def headText : String :=
  "\x7b\"choices\":[\x7b\"delta\":\x7b\"content\":\"é\",\"tool_calls\":[\x7b\"index\":0,\"id\":\"a\",\"function\":\x7b\"name\":\"f\"\x7d\x7d]\x7d\x7d]\x7d"

/-- Its second chunk, with the arguments. -/
def tailText : String :=
  "\x7b\"choices\":[\x7b\"delta\":\x7b\"tool_calls\":[\x7b\"index\":0,\"function\":\x7b\"arguments\":\"1\"\x7d\x7d]\x7d\x7d]\x7d"

/-- The completion as a whole. -/
def wholeText : String :=
  "\x7b\"choices\":[\x7b\"message\":\x7b\"content\":\"é\",\"tool_calls\":[\x7b\"id\":\"a\",\"function\":\x7b\"name\":\"f\",\"arguments\":\"1\"\x7d\x7d]\x7d\x7d]\x7d"

def headJson : Json := choiceJson "delta" [("content", .str "é")]
  [("index", .num 0), ("id", .str "a"), ("function", .object [("name", .str "f")])]

def tailJson : Json := choiceJson "delta" []
  [("index", .num 0), ("function", .object [("arguments", .str "1")])]

def wholeJson : Json := choiceJson "message" [("content", .str "é")]
  [("id", .str "a"), ("function", .object [("name", .str "f"), ("arguments", .str "1")])]

def oneCallTexts : String → Except String Json :=
  knownTexts [(headText, headJson), (tailText, tailJson), (wholeText, wholeJson)]

/-- The frames of the stream, in parts. -/
def oneCallFrames : List String :=
  ["data: \x7b\"choices\":[", "\x7b\"delta\":\x7b\"content\":", "\"é\",\"tool_calls\":[",
    "\x7b\"index\":0,\"id\":\"a\",", "\"function\":\x7b\"name\":",
    "\"f\"\x7d\x7d]\x7d\x7d]\x7d\n\n", "data: \x7b\"choices\":[",
    "\x7b\"delta\":\x7b\"tool_calls\":[", "\x7b\"index\":0,\"function\":",
    "\x7b\"arguments\":\"1\"", "\x7d\x7d]\x7d\x7d]\x7d\n\n", "data: [DONE]\n\n"]

def oneCallBytes : List UInt8 := oneCallFrames.flatMap fun part => Utf8.encode part.toList

/-- Its bytes come in two pieces, cut within a character, with a tick between them. -/
def oneCallItems : List ByteItem :=
  [.chunk (oneCallBytes.take 40), .tick, .chunk (oneCallBytes.drop 40)]

/-- What is parsed of them, and of the completion as a whole. -/
def oneCallResponse : ProviderResponse where
  status := "200 OK"
  success := true
  stream := [.chunk [], .tick, .chunk [
    .ok [.text "é", .toolCallDelta (some 0) (some "a") (some "f") ""],
    .ok [.toolCallDelta (some 0) (some "stream-index-0") none "1"], .ok [.completed]]]
  text := .text (.ok [.text "é", .toolCall (some "a") (some "f") "1", .completed])

/-- A provider that answers every request in this way. -/
def Surroundings.answering (response : ProviderResponse) : Surroundings where
  answer n
    | .send _ _ => .response response
    | op => (Surroundings.plain oneProvider).answer n op
  stamp _ _ _ := "t1"

/-- A run whose request has these fields. -/
def requestRun (fields : List (String × Json)) : RunProjection :=
  { greetingRun with request := { greetingRequest with body := .obj fields }.toJson }

def requestWorld (fields : List (String × Json)) : World := .holding [
  .runQueued "r" none "p" "m" (requestRun fields).request,
  .sessionPhaseChanged .created .running none, .runStarted "r" "a" 1]

/-- What an execution of it leaves. -/
def requestJournal (response : ProviderResponse) (fields : List (String × Json)) : Journal :=
  executionJournal (World.handle (.answering response)) "s" (requestRun fields) (requestWorld fields)

/-- The body that is sent for it. -/
def sentBody (response : ProviderResponse) (fields : List (String × Json)) : Json :=
  (((requestJournal response fields).responses.getLast?).map Prod.fst).getD .null

theorem oneCall_stream :
    oneCallResponse.stream =
        decodeItems (parseSseEvent oneCallTexts .chatCompletions) [] oneCallItems ∧
      sseFrames (oneCallItems.map ByteItem.bytes) =
        ([(none, headText), (none, tailText), (none, "[DONE]")], .ok []) := by
  decide +kernel

theorem oneCall_frames : [(none, headText), (none, tailText), (none, "[DONE]")].filter saysSomething =
      [(none, headText), (none, tailText)] ++ [(none, "[DONE]")] ∧
    [headText, tailText, "[DONE]"].map isDone = [false, false, true] := by
  decide +kernel

theorem oneCall_streamed {body : Json} (hmode : bodyStreamMode body = true) :
    oneCall.Streamed oneCallTexts body oneCallResponse := by
  obtain ⟨hstream, hframes⟩ := oneCall_stream
  obtain ⟨hsome, hdone⟩ := oneCall_frames
  simp only [List.map_cons, List.map_nil, List.cons.injEq, and_true] at hdone
  refine ⟨hmode, rfl, oneCallItems, _, [], [⟨"é", [⟨0, some ("a", "f"), ""⟩]⟩, ⟨"", [⟨0, none, "1"⟩]⟩],
    _, _, hstream, by decide, hframes, hsome, hdone.2.2, ?_, rfl, by simp [oneCall], ?_⟩
  · refine .cons ⟨hdone.1, headJson, rfl, .inr ?_⟩ (.cons ⟨hdone.2.1, tailJson, rfl, .inr ?_⟩ .nil)
    · exact ⟨_, _, rfl, rfl, rfl, .cons ⟨rfl, rfl, rfl, rfl⟩ .nil⟩
    · exact ⟨_, _, rfl, rfl, rfl, .cons ⟨rfl, rfl, rfl, rfl⟩ .nil⟩
  · intro call hcall
    obtain rfl := List.mem_singleton.mp hcall
    exact ⟨_, _, rfl, rfl, rfl⟩

theorem oneCall_sent {body : Json} (hmode : bodyStreamMode body = false) :
    oneCall.Sent oneCallTexts body oneCallResponse :=
  ⟨hmode, rfl, wholeText, wholeJson, rfl, rfl, _, _, rfl, rfl, rfl, rfl,
    .cons ⟨rfl, rfl, rfl⟩ .nil⟩

theorem oneCall_answered (fields : List (String × Json))
    (h : fields ∈ [[], [("stream", Json.bool false)]]) :
    Answered (World.handle (.answering oneCallResponse)) "s" (requestRun fields)
      (requestWorld fields) (sentBody oneCallResponse fields) oneCallResponse := by
  have hall : (((executeRun "s" (requestRun fields)).run
        (World.handle (.answering oneCallResponse)) (requestWorld fields)).1.toOption).map
          ExecutionResult.settled = some true ∧
      (requestJournal oneCallResponse fields).faulted = false ∧
      (requestJournal oneCallResponse fields).responses.getLast? =
        some (sentBody oneCallResponse fields, oneCallResponse) := by
    revert fields
    decide +kernel
  obtain ⟨hrun, hstored, hlast⟩ := hall
  obtain ⟨result, hresult, hsettled⟩ := Option.map_eq_some_iff.mp hrun
  exact ⟨⟨result, Except.toOption_eq_some.mp hresult, hsettled⟩, hstored, hlast⟩

theorem chat_streaming_agrees_oneCall :
    (requestJournal oneCallResponse []).text = "é" ∧
      (requestJournal oneCallResponse []).calls.Perm
        (requestJournal oneCallResponse [("stream", .bool false)]).calls ∧
      (requestJournal oneCallResponse []).calls = [⟨"a", "f", "1"⟩] := by
  have hagree := chat_streaming_agrees oneCallTexts oneCall
    (oneCall_answered [] (by simp)) (oneCall_answered [("stream", .bool false)] (by simp))
    (oneCall_streamed (by decide +kernel)) (oneCall_sent (by decide +kernel))
  exact ⟨hagree.1.trans hagree.2.2.1, hagree.2.1, by decide +kernel⟩

end Piqo
