import Mathlib.Logic.Relation
import PiqoServer.Core.Text
import PiqoServer.Hub.EventText
import PiqoServer.Hub.Stream

/-!
# Following a session

`follow_events` (`piqo-cli/src/main.rs`) shows the events of a session. It opens the event stream
behind the last event it has seen, reads the response chunk by chunk, and opens the stream again
when a response ends, until the run it waits for is over.

A response may end anywhere, and its chunks may end anywhere, also within a character: what follows
the last whole frame is dropped, and comes again with the next response.

## Main definitions

* `parseFrame`: the id and the data of a frame
* `Follower`, `Follower.frame`, `Follower.response`: what has been seen and printed
* `Connects`: a response of the server, and what the follower makes of it
* `Shown`: what is read of an event

## Main results

* `response_eq`: how a response is cut into chunks does not matter
* `response_events`: what is read of a response
* `follow_once`: over any number of responses every event is handled once and in order
-/

namespace Piqo

open TextFrames

/-! ## Reading a frame -/

/-- `str::parse` of a `u64`. -/
def parseU64 (text : List Char) : Option Nat :=
  let digits := if text.head? = some '+' then text.tail else text
  if digits = [] ∨ digits.all Char.isDigit = false then none
  else
    let n := Nat.ofDigitChars 10 digits 0
    if n ≤ 18446744073709551615 then some n else none

/-- One line of a frame. -/
def frameField (fields : Option Nat × List Char) (line : List Char) : Option Nat × List Char :=
  match stripPrefix "id:".toList line with
  | some value => (parseU64 (trim (String.ofList value)).toList, fields.2)
  | none => match stripPrefix "data:".toList line with
    | some value =>
      (fields.1, (if fields.2 = [] then [] else fields.2 ++ ['\n']) ++ trimStart value)
    | none => fields

/-- The id and the data of a frame. -/
def parseFrame (frame : List Char) : Option Nat × List Char :=
  (lines frame).foldl frameField (none, [])

/-- The position that the header `Last-Event-ID` asks for. -/
def parseLastEventId (header : Option String) : Except String Nat :=
  match header with
  | none => .ok 0
  | some value => match parseU64 value.toList with
    | some after => .ok after
    | none => .error "Last-Event-ID must be an integer"

/-- `value["key"]`. -/
def Json.index (v : Json) (key : String) : Json := (v.get key).getD .null

/-! ## The follower -/

/-- How events are shown: as JSON or as the text of the assistant, and until which run is over. -/
structure FollowOptions where
  jsonOutput : Bool
  untilRun : Option String

structure Follower where
  lastSeen : Nat
  assistantMessages : List String
  activeRunSeen : Bool
  /-- What was printed, piece by piece. -/
  printed : List String
  /-- The run is over, and the follower has returned. -/
  returned : Bool
  deriving DecidableEq, Repr

namespace Follower

def start (options : FollowOptions) (after : Nat) : Follower where
  lastSeen := after
  assistantMessages := []
  activeRunSeen := options.untilRun.isNone
  printed := []
  returned := false

/-- The types of events after which a run goes on only when somebody acts. -/
def lastTypes : List Json :=
  [.str "run_completed", .str "run_failed", .str "run_cancelled", .str "run_interrupted",
    .str "run_requires_action"]

/-- Whether the event is of the run that the follower waits for. -/
def ofRun (options : FollowOptions) (event : Json) : Bool :=
  options.untilRun.any fun runId => (event.index "data").index "run_id" = .str runId

/-- A message of the assistant. -/
def opensAssistant (event : Json) : Bool :=
  event.index "type" = .str "message_started" &&
    ((event.index "data").index "role" = .str "assistant" ||
      ((event.index "data").index "author").index "kind" = .str "agent")

/-- The text that an event adds to a message. -/
def contentOf (messages : List String) (event : Json) : Option String :=
  let block := (event.index "data").index "block"
  if event.index "type" = .str "message_content_appended" ∧ block.index "kind" = .str "text" ∧
      ((event.index "data").index "message_id").asStr?.getD "" ∈ messages then
    some ((block.index "value").asStr?.getD "")
  else none

/-- An event is shown. -/
def display (options : FollowOptions) (f : Follower) (event : Json) : Follower :=
  let activeRunSeen :=
    f.activeRunSeen || (event.index "type" = .str "run_started" && ofRun options event)
  let assistantMessages := f.assistantMessages ++
    if opensAssistant event then ((event.index "data").index "message_id").asStr?.toList else []
  let line := if options.jsonOutput then some (event.render ++ "\n")
    else if activeRunSeen then contentOf assistantMessages event else none
  let ended := ofRun options event && lastTypes.contains (event.index "type")
  { lastSeen := f.lastSeen
    assistantMessages
    activeRunSeen
    printed := f.printed ++ line.toList ++ if ended then ["\n"] else []
    returned := ended }

/-- An event under its id. -/
def handle (options : FollowOptions) (f : Follower) (seen : Nat × Json) : Follower :=
  if f.returned then f
  else display options { f with lastSeen := max f.lastSeen seen.1 } seen.2

section Response

variable (fromStr : String → Option Json) (options : FollowOptions)

/-- A frame without data, or whose data is not JSON, is passed over. -/
def frame (f : Follower) (frame : List Char) : Follower :=
  if f.returned then f
  else
    let (id, data) := parseFrame frame
    if data = [] then f
    else match fromStr (String.ofList data) with
      | none => f
      | some event => display options { f with lastSeen := id.elim f.lastSeen (max f.lastSeen) } event

/-- A chunk is decoded by itself, and the frames that it completes are read. -/
def chunk (state : Follower × List Char) (bytes : List UInt8) : Follower × List Char :=
  match blankLine.drain (Except.ok : List Char → Except Empty (List Char))
      (state.2 ++ Utf8.decodeLossy bytes) with
  | (frames, .ok rest) => (frames.foldl (frame fromStr options) state.1, rest)

/-- A response is read with a buffer of its own. -/
def response (f : Follower) (chunks : List (List UInt8)) : Follower :=
  (chunks.foldl (chunk fromStr options) (f, [])).1

end Response

end Follower

/-! ## Reading a response -/

section Response

variable {fromStr : String → Option Json} {options : FollowOptions}

theorem foldl_chunk {buffer : List Char} (hbuffer : blankLine.find buffer = none) (f : Follower)
    (chunks : List (List UInt8)) :
    (chunks.foldl (Follower.chunk fromStr options) (f, buffer)).1 =
      (blankLine.drain (Except.ok : List Char → Except Empty (List Char))
        (buffer ++ Utf8.decodeChunks chunks)).1.foldl (Follower.frame fromStr options) f := by
  induction chunks generalizing buffer f with
  | nil =>
    rw [Utf8.decodeChunks, List.flatMap_nil, List.append_nil,
      Delimiter.drain_of_find_eq_none hbuffer]
    rfl
  | cons bytes chunks ih =>
    have hdecode : Utf8.decodeChunks (bytes :: chunks) =
        Utf8.decodeLossy bytes ++ Utf8.decodeChunks chunks := List.flatMap_cons
    rw [List.foldl_cons, Follower.chunk, hdecode, ← List.append_assoc,
      Delimiter.drain_append (buffer ++ Utf8.decodeLossy bytes)]
    rcases hdrain : blankLine.drain (Except.ok : List Char → Except Empty (List Char))
      (buffer ++ Utf8.decodeLossy bytes) with ⟨frames, e | rest⟩
    · exact e.elim
    · simp only
      rw [ih (Delimiter.find_left hdrain), List.foldl_append]

/-- **How a response is cut into chunks does not matter** beyond the characters that are torn. -/
theorem response_eq (f : Follower) (chunks : List (List UInt8)) :
    f.response fromStr options chunks =
      (blankLine.drain (Except.ok : List Char → Except Empty (List Char))
        (Utf8.decodeChunks chunks)).1.foldl (Follower.frame fromStr options) f :=
  foldl_chunk Delimiter.find_nil f chunks

/-! ## The frames of a response -/

theorem parseU64_toString (n : Nat) : parseU64 (toString n).toList =
    if n ≤ 18446744073709551615 then some n else none := by
  have hdigits : (toString n).toList = Nat.toDigits 10 n := Nat.toList_repr
  have hall : ∀ c ∈ Nat.toDigits 10 n, c.isDigit = true := fun c hc =>
    Nat.isDigit_of_mem_toDigits (by decide) (by decide) hc
  have hhead : (Nat.toDigits 10 n).head? ≠ some '+' := by
    intro hplus
    exact absurd (hall '+' (List.mem_of_head? hplus)) (by decide)
  have hcond : ¬(Nat.toDigits 10 n = [] ∨ (Nat.toDigits 10 n).all Char.isDigit = false) := by
    rw [not_or, Bool.not_eq_false, List.all_eq_true]
    exact ⟨Nat.toDigits_ne_nil, hall⟩
  rw [parseU64, hdigits]
  simp only [if_neg hhead, if_neg hcond, Nat.ofDigitChars_ten_toDigits]

/-- The position that the server reads is the one that was sent. -/
theorem eq_of_parseLastEventId {n after : Nat}
    (h : parseLastEventId (some (toString n)) = .ok after) : after = n := by
  rw [parseLastEventId, parseU64_toString] at h
  by_cases hle : n ≤ 18446744073709551615
  · rw [if_pos hle] at h
    cases h
    rfl
  · rw [if_neg hle] at h
    cases h

theorem trim_digits (n : Nat) :
    trim (String.ofList (' ' :: (toString n).toList)) = toString n := by
  have hdigit : ∀ c ∈ (toString n).toList, isWhitespace c = false := by
    intro c hc
    rw [show (toString n).toList = Nat.toDigits 10 n from Nat.toList_repr] at hc
    have hisDigit := Nat.isDigit_of_mem_toDigits (b := 10) (by decide) (by decide) hc
    rw [Char.isDigit, Bool.and_eq_true, decide_eq_true_iff, decide_eq_true_iff] at hisDigit
    have hle : 48 ≤ c.toNat := hisDigit.1
    have hge : c.toNat ≤ 57 := hisDigit.2
    simp only [isWhitespace, Bool.or_eq_false_iff, Bool.and_eq_false_iff, decide_eq_false_iff_not,
      beq_eq_false_iff_ne]
    omega
  have hnone : ∀ text : List Char, (∀ c ∈ text, isWhitespace c = false) →
      text.dropWhile isWhitespace = text := by
    intro text htext
    cases text with
    | nil => rfl
    | cons c text => rw [List.dropWhile_cons, htext c List.mem_cons_self]; rfl
  rw [trim, String.toList_ofList, List.dropWhile_cons, if_pos (by decide), hnone _ hdigit,
    trimEndMatches, hnone _ fun c hc => hdigit c (List.mem_reverse.mp hc), List.reverse_reverse,
    String.ofList_toList]

theorem lines_joined {ls : List (List Char)} (h : ∀ line ∈ ls, Solid line ∧ '\r' ∉ line) :
    lines (joined ls) = ls := by
  have hreturn : ∀ {line : List Char}, '\r' ∉ line → stripReturn line = line := by
    intro line hline
    rw [stripReturn, if_neg]
    exact fun hlast => hline (List.mem_of_getLast? hlast)
  induction ls with
  | nil => rfl
  | cons line ls ih =>
    rw [List.forall_mem_cons] at h
    cases ls with
    | nil => exact lines_of_not_mem h.1.1.2 h.1.1.1
    | cons next ls => rw [joined, lines_append_newline h.1.1.2, hreturn h.1.2, ih h.2]

/-- What is read of the lines of an event: the id, the name and the data, of which characters may
be torn. -/
theorem torn_event {api : ApiEvent} {read : List (List Char)}
    (h : List.Forall₂ TornLine api.lines read) :
    ∃ name data, TornLine api.text.toList data ∧
      read = ["id: ".toList ++ (toString api.id).toList, 'e' :: name, "data: ".toList ++ data] := by
  have hplain : Ascii ("id: ".toList ++ (toString api.id).toList) := by
    intro c hc
    rcases List.mem_append.mp hc with hc | hc
    · exact (show Ascii "id: ".toList by decide) c hc
    · rw [show (toString api.id).toList = Nat.toDigits 10 api.id from Nat.toList_repr] at hc
      have hdigit := Nat.isDigit_of_mem_toDigits (b := 10) (by decide) (by decide) hc
      rw [Char.isDigit, Bool.and_eq_true, decide_eq_true_iff, decide_eq_true_iff] at hdigit
      rw [Char.utf8Size_eq_one_iff]
      exact UInt32.le_trans hdigit.2 (by decide)
  obtain _ | ⟨hid, h⟩ := h
  obtain _ | ⟨⟨cuts, start, hevent⟩, h⟩ := h
  obtain _ | ⟨⟨cuts', start', hdata⟩, h⟩ := h
  cases h
  obtain ⟨name, rfl, -⟩ := torn_cons (by decide) hevent
  obtain ⟨data, rfl, htorn⟩ := torn_append (by decide) hdata
  exact ⟨name, data, htorn, by rw [hid.eq_of_plain hplain]; rfl⟩

theorem parseFrame_event (id : Nat) (hid : id ≤ 18446744073709551615) {name data : List Char}
    (hlines : ∀ line ∈ ["id: ".toList ++ (toString id).toList, 'e' :: name, "data: ".toList ++ data],
      Solid line ∧ '\r' ∉ line) (hdata : trimStart data = data) :
    parseFrame (joined ["id: ".toList ++ (toString id).toList, 'e' :: name,
      "data: ".toList ++ data]) = (some id, data) := by
  have hidLine : stripPrefix "id:".toList ("id: ".toList ++ (toString id).toList) =
      some (' ' :: (toString id).toList) := rfl
  have hname : stripPrefix "id:".toList ('e' :: name) = none ∧
      stripPrefix "data:".toList ('e' :: name) = none := ⟨rfl, rfl⟩
  have hdataLine : stripPrefix "id:".toList ("data: ".toList ++ data) = none ∧
      stripPrefix "data:".toList ("data: ".toList ++ data) = some (' ' :: data) := ⟨rfl, rfl⟩
  have htrim : trimStart (' ' :: data) = data := by
    rw [trimStart, List.dropWhile_cons, if_pos (by decide)]
    exact hdata
  rw [parseFrame, lines_joined hlines]
  simp only [List.foldl_cons, List.foldl_nil, frameField, hidLine, hname.1, hname.2, hdataLine.1,
    hdataLine.2, htrim, trim_digits, parseU64_toString, if_pos hid, if_true, List.nil_append]

theorem parseFrame_comment {text : List Char} (hlines : Solid (':' :: text) ∧ '\r' ∉ ':' :: text) :
    parseFrame (joined [':' :: text]) = (none, []) := by
  rw [parseFrame, lines_joined (by simpa using hlines)]
  rfl

/-! ## What is read of an event -/

/-- The events that reach a follower: the numbers among their fields are printable, the id is a
`u64`, and serde_json reads the text, also where characters are torn. -/
structure Deliverable (fromStr : String → Option Json) (r : RecordedEvent) (e : SemanticEvent) :
    Prop where
  printable : e.column.Printable
  id_le : r.id ≤ 18446744073709551615
  readable : ∀ data, TornLine (ApiEvent.of r e).text.toList data →
    (fromStr (String.ofList data)).isSome = true

/-- What is read of the event of a record, of which characters may be torn. -/
def Shown (fromStr : String → Option Json) (r : RecordedEvent) (v : Json) : Prop :=
  ∃ e data, e.reload = r.event ∧ TornLine (ApiEvent.of r e).text.toList data ∧
    fromStr (String.ofList data) = some v

theorem carriageReturn_torn {ls read : List (List Char)} (h : List.Forall₂ TornLine ls read)
    (hls : ∀ line ∈ ls, '\r' ∉ line) : ∀ line ∈ read, '\r' ∉ line := by
  induction h with
  | nil => nofun
  | cons hline _ ih =>
    rw [List.forall_mem_cons] at hls ⊢
    exact ⟨hline.not_mem (by decide) hls.1, ih hls.2⟩

/-- What is read of the lines of an event. -/
theorem frame_event (options : FollowOptions) {r : RecordedEvent} {e : SemanticEvent} (h : Deliverable fromStr r e)
    {read : List (List Char)} (hread : List.Forall₂ TornLine (ApiEvent.of r e).lines read) :
    ∃ v data, TornLine (ApiEvent.of r e).text.toList data ∧ fromStr (String.ofList data) = some v ∧
      ∀ f : Follower, f.frame fromStr options (joined read) = f.handle options (r.id, v) := by
  have hprintable : ∀ line ∈ (ApiEvent.of r e).lines, '\r' ∉ line := by
    intro line hline
    have hall : Printable line := by
      rw [ApiEvent.lines, List.mem_cons, List.mem_cons, List.mem_singleton] at hline
      rcases hline with rfl | rfl | rfl
      · exact .append (by decide) (printable_digits _)
      · exact .append (by decide) (printable_typeName e)
      · exact .append (by decide) (ApiEvent.printable_text (.of r e) h.printable)
    exact hall.carriageReturn
  have hlines : ∀ line ∈ read, Solid line ∧ '\r' ∉ line := fun line hline =>
    ⟨(frameOf_torn hread (ApiEvent.frameOf_lines h.printable)).2 line hline,
      carriageReturn_torn hread hprintable line hline⟩
  obtain ⟨name, data, htorn, rfl⟩ := torn_event hread
  obtain ⟨v, hv⟩ := Option.isSome_iff_exists.mp (h.readable data htorn)
  obtain ⟨rest, hrest⟩ := (ApiEvent.of r e).text_eq
  obtain ⟨rest', rfl⟩ : ∃ rest', data = '\x7b' :: rest' := by
    obtain ⟨cuts, start, htorn'⟩ := htorn
    rw [hrest] at htorn'
    obtain ⟨rest', rfl, -⟩ := torn_cons (by decide) htorn'
    exact ⟨rest', rfl⟩
  refine ⟨v, _, htorn, hv, fun f => ?_⟩
  have hparse := parseFrame_event (ApiEvent.of r e).id h.id_le hlines rfl
  rw [Follower.frame, Follower.handle]
  split
  · rfl
  · rw [hparse]
    simp only [if_neg (List.cons_ne_nil _ _), hv]
    rfl

theorem frame_comment {text read : List Char} (htext : Printable text)
    (hread : TornLine (':' :: text) read) (f : Follower) :
    f.frame fromStr options (joined [read]) = f := by
  have hprintable : Printable (':' :: text) :=
      (show Printable [':'] from by decide).append htext
  have hsolid : Solid read := hread.solid ⟨List.cons_ne_nil _ _, hprintable.newline⟩
  have hreturn : '\r' ∉ read := hread.not_mem (by decide) hprintable.carriageReturn
  obtain ⟨cuts, start, htorn⟩ := hread
  obtain ⟨rest, rfl, -⟩ := torn_cons (by decide) htorn
  rw [Follower.frame, parseFrame_comment ⟨hsolid, hreturn⟩]
  split <;> rfl

/-! ## What is read of a response -/

section Sent

variable {wire : SseFrame → List Char} {keepAlive : List Char} (describe : StoreError → String)

/-- The events of a response can be read. -/
def StreamPiece.Sound (fromStr : String → Option Json) : StreamPiece → Prop
  | .event y => ∃ e, y.From e ∧ Deliverable fromStr y.record e
  | .keepAlive => True

/-- What is read of the lines of a piece. -/
def StreamPiece.ReadAs (fromStr : String → Option Json) (options : FollowOptions)
    (read : List (List Char)) : StreamPiece → Prop
  | .event y => ∃ v, Shown fromStr y.record.reload v ∧
      ∀ f : Follower, f.frame fromStr options (joined read) = f.handle options (y.record.id, v)
  | .keepAlive => ∀ f : Follower, f.frame fromStr options (joined read) = f

/-- The lines of a piece, whatever is torn. -/
theorem StreamPiece.Sound.lines (options : FollowOptions) (describe : StoreError → String)
    (h : EventStreamText wire keepAlive) {piece : StreamPiece}
    (hsound : piece.Sound fromStr) :
    ∃ ls, FrameOf ls ∧ piece.text wire keepAlive describe = frameText ls ∧
      ∀ read, List.Forall₂ TornLine ls read → piece.ReadAs fromStr options read := by
  cases piece with
  | event y =>
    obtain ⟨e, hfrom, hdeliver⟩ := hsound
    refine ⟨_, ApiEvent.frameOf_lines hdeliver.printable,
      h.event_text hfrom hdeliver.printable describe, fun read hread => ?_⟩
    obtain ⟨v, data, htorn, hv, hframe⟩ := frame_event options hdeliver hread
    exact ⟨v, ⟨e, data, hfrom.reload.symm, htorn, hv⟩, hframe⟩
  | keepAlive =>
    obtain ⟨text, htext, heq⟩ := h.comment
    have hprintable : Printable (':' :: text) :=
      (show Printable [':'] from by decide).append htext
    refine ⟨[':' :: text], ⟨List.cons_ne_nil _ _, ?_⟩, heq, fun read hread f => ?_⟩
    · rw [List.forall_mem_singleton]
      exact ⟨List.cons_ne_nil _ _, hprintable.newline⟩
    · obtain _ | ⟨hline, hread⟩ := hread
      cases hread
      exact frame_comment htext hline f

/-- An event that was read under its id. -/
def SeenAs (fromStr : String → Option Json) (r : RecordedEvent) (seen : Nat × Json) : Prop :=
  seen.1 = r.id ∧ Shown fromStr r seen.2

theorem ids_seen {rs : List RecordedEvent} {seen : List (Nat × Json)}
    (h : List.Forall₂ (SeenAs fromStr) rs seen) : seen.map Prod.fst = rs.map (·.id) := by
  induction h with
  | nil => rfl
  | cons hp _ ih => rw [List.map_cons, List.map_cons, hp.1, ih]

theorem foldl_frame {pieces : List StreamPiece} {read : List (List (List Char))}
    (h : List.Forall₂ (fun piece read => piece.ReadAs fromStr options read) pieces read)
    (f : Follower) : ∃ seen,
      List.Forall₂ (SeenAs fromStr) ((pieces.filterMap StreamPiece.event?).map (·.record.reload)) seen ∧
        (read.map joined).foldl (Follower.frame fromStr options) f =
          seen.foldl (Follower.handle options) f := by
  induction h generalizing f with
  | nil => exact ⟨[], .nil, rfl⟩
  | @cons piece lines pieces read hpiece _ ih =>
    cases piece with
    | event y =>
      obtain ⟨v, hshown, hframe⟩ := hpiece
      obtain ⟨seen, hseen, hfold⟩ := ih (f.handle options (y.record.id, v))
      refine ⟨(y.record.id, v) :: seen, .cons ⟨rfl, hshown⟩ hseen, ?_⟩
      rw [List.map_cons, List.foldl_cons, hframe, hfold, List.foldl_cons]
    | keepAlive =>
      obtain ⟨seen, hseen, hfold⟩ := ih f
      refine ⟨seen, hseen, ?_⟩
      rw [List.map_cons, List.foldl_cons, hpiece, hfold]

/-- **What is read of a response**, wherever it ends and however it is cut into chunks: its first
events, each once and in order. -/
theorem response_events (h : EventStreamText wire keepAlive) {pieces : List StreamPiece}
    (hsound : ∀ piece ∈ pieces, piece.Sound fromStr) {chunks : List (List UInt8)}
    (harrived : chunks.flatten <+:
      Utf8.encode (pieces.flatMap (StreamPiece.text wire keepAlive describe)))
    (f : Follower) : ∃ events seen, events <+: pieces.filterMap StreamPiece.event? ∧
      List.Forall₂ (SeenAs fromStr) (events.map (·.record.reload)) seen ∧
      f.response fromStr options chunks = seen.foldl (Follower.handle options) f := by
  obtain ⟨frames, hframes⟩ : ∃ frames, List.Forall₂ (fun (piece : StreamPiece) ls => FrameOf ls ∧
      piece.text wire keepAlive describe = frameText ls ∧
        ∀ read, List.Forall₂ TornLine ls read → piece.ReadAs fromStr options read)
      pieces frames := by
    clear harrived
    induction pieces with
    | nil => exact ⟨[], .nil⟩
    | cons piece pieces ih =>
      rw [List.forall_mem_cons] at hsound
      obtain ⟨ls, hls⟩ := hsound.1.lines options describe h
      obtain ⟨frames, hframes⟩ := ih hsound.2
      exact ⟨ls :: frames, .cons hls hframes⟩
  have htext : pieces.flatMap (StreamPiece.text wire keepAlive describe) =
      frames.flatMap frameText := by
    clear harrived hsound
    induction hframes with
    | nil => rfl
    | cons hls _ ih => rw [List.flatMap_cons, List.flatMap_cons, hls.2.1, ih]
  have hframeOf : ∀ ls ∈ frames, FrameOf ls := by
    clear harrived hsound htext
    induction hframes with
    | nil => nofun
    | cons hls _ ih => exact List.forall_mem_cons.mpr ⟨hls.1, ih⟩
  rw [htext] at harrived
  obtain ⟨read, htorn, hdrain⟩ := frames_of_chunks (ε := Empty) hframeOf harrived
  have hread : List.Forall₂ (fun piece read => piece.ReadAs fromStr options read)
      (pieces.take read.length) read := by
    have htake := List.forall₂_take read.length hframes
    clear harrived hdrain
    generalize pieces.take read.length = pieces' at htake
    generalize frames.take read.length = frames' at htake htorn
    induction htake generalizing read with
    | nil =>
      cases htorn
      exact .nil
    | cons hls _ ih =>
      obtain _ | ⟨hlines, hrest⟩ := htorn
      exact .cons (hls.2.2 _ hlines) (ih _ hrest)
  obtain ⟨seen, hseen, hfold⟩ := foldl_frame hread f
  refine ⟨_, seen, (List.take_prefix read.length pieces).filterMap _, hseen, ?_⟩
  rw [response_eq, hdrain, hfold]

end Sent

end Response

/-! ## The log behind the stream -/

namespace StreamWorld

variable {sessionId : String}

theorem session_advance (w : StreamWorld) : (w.advance sessionId).session = w.session := by
  have hreread : (w.reread sessionId).session = w.session := by
    unfold reread
    split <;> rfl
  unfold advance
  split
  · rfl
  · exact hreread
  · rfl
  · rfl
  · split
    · rfl
    · split <;> rfl
  · exact hreread
  · rfl

/-- The log only grows. -/
theorem records_step {w : StreamWorld} (h : w.session.Dense) (a : StreamAction) :
    w.session.records sessionId <+: (w.step sessionId a).session.records sessionId := by
  cases a with
  | commit now p events =>
    simp only [step]
    split
    · next session q out happ =>
      obtain ⟨-, -, hentries, -⟩ := h.appendAll happ
      simp only [StoredSession.records]
      rw [hentries, List.map_append]
      exact List.prefix_append _ _
    · exact List.prefix_rfl
  | publish event =>
    simp only [step]
    split <;> exact List.prefix_rfl
  | dropReceiver c =>
    simp only [step]
    split <;> exact List.prefix_rfl
  | advance =>
    change _ <+: (w.advance sessionId).session.records sessionId
    simp only [session_advance, List.prefix_rfl]
  | subscribe | removeIfUnused | closeSessions | close => exact List.prefix_rfl

theorem records_run {w : StreamWorld} (h : w.Handoff sessionId) (actions : List StreamAction) :
    w.session.records sessionId <+: (w.run sessionId actions).session.records sessionId := by
  induction actions generalizing w with
  | nil => exact List.prefix_rfl
  | cons a actions ih => exact (records_step h.dense a).trans (ih (h.step a))

/-- The events between two positions have the ids in between. -/
theorem ids_window {s : StoredSession} (h : s.Dense) (a b : Nat) :
    (((s.records sessionId).take b).drop a).map (·.id) =
      List.range' (a + 1) (((s.records sessionId).take b).drop a).length := by
  rw [List.map_drop, List.map_take, ids_records sessionId h, List.length_drop, List.length_take]
  rcases le_total b (s.records sessionId).length with hle | hle
  · rw [List.take_range'_of_length_ge hle, List.drop_range', min_eq_left hle, Nat.mul_one,
      Nat.add_comm]
  · rw [List.take_range'_of_length_le hle, List.drop_range', min_eq_right hle, Nat.mul_one,
      Nat.add_comm]

end StreamWorld

/-! ## Following over responses -/

/-- The window of a list up to a position, extended to a later one. -/
theorem window_append {α : Type} {l : List α} {a b c : Nat} (hab : a ≤ b) (hbc : b ≤ c) :
    (l.take c).drop a = (l.take b).drop a ++ (l.take c).drop b := by
  have hsplit := List.take_append_drop (b - a) ((l.take c).drop a)
  rw [List.take_drop, List.drop_drop, Nat.add_sub_cancel' hab, List.take_take, min_eq_left hbc]
    at hsplit
  exact hsplit.symm

theorem window_take {α : Type} {l : List α} {a b k : Nat}
    (hk : k ≤ ((l.take b).drop a).length) :
    ((l.take b).drop a).take k = (l.take (a + k)).drop a := by
  rw [List.length_drop, List.length_take] at hk
  rw [List.take_drop, List.take_take]
  by_cases hzero : k = 0
  · subst hzero
    rw [Nat.add_zero, List.drop_eq_nil_of_le, List.drop_eq_nil_of_le]
    · rw [List.length_take]
      exact Nat.min_le_left _ _
    · rw [List.length_take]
      omega
  · rw [min_eq_left (by omega)]

/-- Events under consecutive ids are handled one by one, until the follower returns. -/
theorem foldl_handle (options : FollowOptions) {f : Follower} (hf : f.returned = false)
    {seen : List (Nat × Json)}
    (hids : seen.map Prod.fst = List.range' (f.lastSeen + 1) seen.length) :
    ∃ k ≤ seen.length, seen.foldl (Follower.handle options) f =
        (seen.take k).foldl (Follower.handle options) f ∧
      (seen.foldl (Follower.handle options) f).lastSeen = f.lastSeen + k := by
  have hreturned : ∀ (seen : List (Nat × Json)) (f : Follower), f.returned = true →
      seen.foldl (Follower.handle options) f = f := by
    intro seen
    induction seen with
    | nil => exact fun _ _ => rfl
    | cons p seen ih =>
      intro f hf
      rw [List.foldl_cons, Follower.handle, if_pos hf]
      exact ih f hf
  induction seen generalizing f with
  | nil => exact ⟨0, le_rfl, rfl, rfl⟩
  | cons p seen ih =>
    rw [List.map_cons, List.length_cons, List.range'_succ, List.cons.injEq] at hids
    obtain ⟨hid, hids⟩ := hids
    have hlast : (f.handle options p).lastSeen = f.lastSeen + 1 := by
      rw [Follower.handle, hf, hid]
      exact max_eq_right (Nat.le_succ _)
    cases hover : (f.handle options p).returned with
    | true =>
      refine ⟨1, by simp, ?_, ?_⟩
      · rw [List.foldl_cons, hreturned _ _ hover]
        rfl
      · rw [List.foldl_cons, hreturned _ _ hover, hlast]
    | false =>
      obtain ⟨k, hk, hfold, hlast'⟩ := ih hover (by rw [hlast]; exact hids)
      refine ⟨k + 1, by rw [List.length_cons]; omega, ?_, ?_⟩
      · rw [List.foldl_cons, hfold, List.take_succ_cons, List.foldl_cons]
      · rw [List.foldl_cons, hlast', hlast]
        omega

section Following

variable (sessionId : String) (fromStr : String → Option Json) (options : FollowOptions)
  (wire : SseFrame → List Char) (keepAlive : List Char) (describe : StoreError → String)

/-- One response: the server streams the events behind the position that the follower asks for,
amid everything else, and the follower reads what arrives of them. -/
inductive Connects : StreamWorld × Follower → StreamWorld × Follower → Prop
  | response {w : StreamWorld} {f : Follower} {after : Nat} (actions : List StreamAction)
      (pieces : List StreamPiece) (chunks : List (List UInt8)) (hfollows : f.returned = false)
      (hafter : parseLastEventId (some (toString f.lastSeen)) = .ok after)
      (hsent : (pieces.filterMap StreamPiece.event?).map (·.record) =
        (StreamWorld.run sessionId { w with stream := .start after } actions).stream.yielded)
      (hsound : ∀ piece ∈ pieces, piece.Sound fromStr)
      (harrived : chunks.flatten <+:
        Utf8.encode (pieces.flatMap (StreamPiece.text wire keepAlive describe))) :
      Connects (w, f) (StreamWorld.run sessionId { w with stream := .start after } actions,
        f.response fromStr options chunks)

/-- What holds of the server and the follower between two responses. -/
structure Following (after : Nat) (w : StreamWorld) (f : Follower) : Prop where
  dense : w.session.Dense
  published_le : w.published ≤ w.session.summary.lastEventId
  wellFormed : w.hub.WellFormed
  lastSeen : f.lastSeen = after ∨ after ≤ f.lastSeen ∧ f.lastSeen ≤ w.session.summary.lastEventId
  seen : ∃ seen, List.Forall₂ (SeenAs fromStr)
      (((w.session.records sessionId).take f.lastSeen).drop after) seen ∧
    f = seen.foldl (Follower.handle options) (.start options after)

variable {sessionId fromStr options wire keepAlive describe}

theorem Following.connects (hwire : EventStreamText wire keepAlive) {after : Nat}
    {w w' : StreamWorld} {f f' : Follower} (h : Following sessionId fromStr options after w f)
    (hstep : Connects sessionId fromStr options wire keepAlive describe (w, f) (w', f')) :
    Following sessionId fromStr options after w' f' := by
  obtain ⟨actions, pieces, chunks, hfollows, hafter, hsent, hsound, harrived⟩ := hstep
  have heq := eq_of_parseLastEventId hafter
  subst heq
  have hstart : StreamWorld.Handoff sessionId { w with stream := .start f.lastSeen } :=
    .start h.dense h.published_le h.wellFormed f.lastSeen
  have hrun := hstart.run actions
  have hgrown := StreamWorld.records_run hstart actions
  have hstarted := @StreamWorld.after_run sessionId
    { w with stream := .start f.lastSeen } actions
  generalize StreamWorld.run sessionId { w with stream := .start f.lastSeen } actions = w₁ at *
  have hyielded := hrun.yielded
  rw [hstarted] at hyielded
  change _ = ((w₁.session.records sessionId).take w₁.stream.lastId).drop f.lastSeen at hyielded
  obtain ⟨events, seen', hprefix, hseen', hresponse⟩ :=
    response_events describe hwire hsound harrived f
  -- the events that were read are the first ones of the window
  have hevents : events.map (·.record.reload) =
      ((w₁.session.records sessionId).take (f.lastSeen + seen'.length)).drop f.lastSeen ∧
      seen'.length ≤
        (((w₁.session.records sessionId).take w₁.stream.lastId).drop f.lastSeen).length := by
    have hmap := hprefix.map (·.record.reload)
    have hall : (pieces.filterMap StreamPiece.event?).map (·.record.reload) =
        ((w₁.session.records sessionId).take w₁.stream.lastId).drop f.lastSeen := by
      rw [← hyielded, ← hsent, List.map_map]
      rfl
    rw [hall] at hmap
    have hlength := hseen'.length_eq
    have hle := hmap.length_le
    rw [hlength] at hle
    refine ⟨?_, hle⟩
    rw [List.prefix_iff_eq_take.mp hmap, hlength, window_take hle]
  have hids : seen'.map Prod.fst = List.range' (f.lastSeen + 1) seen'.length := by
    have hsame := ids_seen hseen'
    have hlength := hseen'.length_eq
    rw [hevents.1] at hsame hlength
    rw [hsame, StreamWorld.ids_window hrun.dense, hlength]
  obtain ⟨k, hk, hfold, hlast⟩ := foldl_handle options hfollows hids
  rw [← hresponse] at hfold hlast
  have hlengths := StreamWorld.length_records sessionId hrun.dense
  have hwindow := hevents.2
  rw [List.length_drop, List.length_take] at hwindow
  have hle : after ≤ f.lastSeen := h.lastSeen.elim (fun heq => heq.ge) fun hle => hle.1
  obtain ⟨seen, hseen, hf⟩ := h.seen
  refine ⟨hrun.dense, hrun.published_le, hrun.wellFormed, ?_, seen ++ seen'.take k, ?_, ?_⟩
  · rw [hlast]
    rcases Nat.eq_zero_or_pos k with rfl | hpos
    · refine h.lastSeen.imp id fun hbetween => ⟨hbetween.1, ?_⟩
      rw [Nat.add_zero, ← hlengths]
      have hold := StreamWorld.length_records sessionId h.dense
      exact (hbetween.2.trans hold.ge).trans hgrown.length_le
    · refine .inr ⟨by omega, by omega⟩
  · rw [hlast, window_append hle (Nat.le_add_right _ k)]
    refine List.rel_append ?_ ?_
    · -- what was seen before stays in the log
      have hsame : ((w₁.session.records sessionId).take f.lastSeen).drop after =
          ((w.session.records sessionId).take f.lastSeen).drop after := by
        rcases h.lastSeen with heq | hbetween
        · rw [heq, List.drop_eq_nil_of_le (by rw [List.length_take]; omega),
            List.drop_eq_nil_of_le (by rw [List.length_take]; omega)]
        · obtain ⟨extra, hextra⟩ := hgrown
          have hold := StreamWorld.length_records sessionId h.dense
          rw [← hextra, List.take_append_of_le_length (by simp only at hold ⊢; omega)]
      rw [hsame]
      exact hseen
    · have htake := List.forall₂_take k hseen'
      rw [hevents.1, window_take] at htake
      · exact htake
      · rw [← hevents.1, List.length_map]
        have hlength := hseen'.length_eq
        rw [List.length_map] at hlength
        omega
  · rw [hfold, List.foldl_append, ← hf]

/-- **Every event is handled once and in order**, over any number of responses. Wherever the
responses end, however they are cut into chunks and whatever happens on the server in between: the
follower is in the state that it would be in had it handled the events of the log behind the
position it began at, up to the last one it has seen, one after the other; what it has read of each
is the text of the event, up to characters that a chunk ended within. -/
theorem follow_once (hwire : EventStreamText wire keepAlive) {session : StoredSession}
    {hub : EventHub} {published : Nat} (hdense : session.Dense)
    (hpublished : published ≤ session.summary.lastEventId) (hhub : hub.WellFormed)
    (stream : Stream) (after : Nat) {w : StreamWorld} {f : Follower}
    (h : Relation.ReflTransGen (Connects sessionId fromStr options wire keepAlive describe)
      ({ session, hub, published, stream }, .start options after) (w, f)) :
    ∃ seen, List.Forall₂ (SeenAs fromStr) ((w.session.records sessionId).filter
        fun r => after < r.id ∧ r.id ≤ f.lastSeen) seen ∧
      seen.map Prod.fst = List.range' (after + 1) (f.lastSeen - after) ∧
      f = seen.foldl (Follower.handle options) (.start options after) := by
  have hfollowing : Following sessionId fromStr options after w f := by
    generalize hend : (w, f) = state at h
    induction h generalizing w f with
    | refl =>
      cases hend
      refine ⟨hdense, hpublished, hhub, .inl rfl, [], ?_, rfl⟩
      rw [List.drop_eq_nil_of_le]
      · exact .nil
      · rw [List.length_take]
        exact Nat.min_le_left _ _
    | tail _ hstep ih =>
      subst hend
      exact (ih rfl).connects hwire hstep
  obtain ⟨seen, hseen, hf⟩ := hfollowing.seen
  refine ⟨seen, ?_, ?_, hf⟩
  · rw [StreamWorld.filter_records sessionId hfollowing.dense]
    exact hseen
  · have hlengths := StreamWorld.length_records sessionId hfollowing.dense
    rw [ids_seen hseen, StreamWorld.ids_window hfollowing.dense, List.length_drop, List.length_take]
    rcases hfollowing.lastSeen with heq | hbetween
    · rw [heq, Nat.sub_self]
      congr 1
      omega
    · congr 2
      omega

end Following

/-! ## A response that ends within an event -/

/-- The layout of the lines. -/
def layout (frame : SseFrame) : List Char :=
  frameText [("id: " ++ frame.id.getD "").toList, ("event: " ++ frame.event).toList,
    ("data: " ++ frame.data).toList]

def pausedRecord : RecordedEvent where
  id := 2
  sessionId := "s"
  schemaVersion := 1
  occurredAt := "t1"
  event := .queuePaused

/-- The record of the first event, and what is read of its row. -/
def createdEvent : SourcedRecord where
  record := {
    id := 1, sessionId := "s", schemaVersion := 1, occurredAt := "t0", event := .sessionCreated none }
  rawData := some (SemanticEvent.sessionCreated none).column

def createdText : String := (ApiEvent.of createdEvent.record (.sessionCreated none)).text

def pausedText : String := (ApiEvent.of pausedRecord .queuePaused).text

/-- A parser that reads the two texts. -/
def readTwo (text : String) : Option Json :=
  if text = createdText then some (.object [("id", .num 1), ("session_id", .str "s"),
    ("schema_version", .num 1), ("occurred_at", .str "t0"), ("type", .str "session_created"),
    ("data", .obj [("title", .null)])])
  else if text = pausedText then some (.object [("id", .num 2), ("session_id", .str "s"),
    ("schema_version", .num 1), ("occurred_at", .str "t1"), ("type", .str "queue_paused"),
    ("data", .null)])
  else none

theorem readTwo_deliverable {r : RecordedEvent} {e : SemanticEvent}
    (hprintable : e.column.Printable) (hid : r.id ≤ 18446744073709551615)
    (hplain : Ascii (ApiEvent.of r e).text.toList)
    (hread : (readTwo (ApiEvent.of r e).text).isSome = true) : Deliverable readTwo r e where
  printable := hprintable
  id_le := hid
  readable data hdata := by
    rw [hdata.eq_of_plain hplain, String.ofList_toList]
    exact hread

def aliveText : List Char := frameText [":keep-alive".toList]

theorem layout_lines : EventStreamText layout aliveText where
  event id event data _ _ _ := by simp only [layout, Option.getD_some, String.toList_append]
  comment := ⟨"keep-alive".toList, by decide, rfl⟩

def silentFollower : FollowOptions where
  jsonOutput := false
  untilRun := none

/-- The first event is replayed, the second one is live. -/
def firstPieces : List StreamPiece := [.event createdEvent, .keepAlive, .event ⟨pausedRecord, none⟩]

/-- The second event is replayed. -/
def secondPieces : List StreamPiece := [.event ⟨pausedRecord, some SemanticEvent.queuePaused.column⟩]

def bytesOf (pieces : List StreamPiece) : List UInt8 :=
  Utf8.encode (pieces.flatMap (StreamPiece.text layout aliveText fun _ => ""))

/-- The response ends within the last line feed of the second event. -/
def firstChunks : List (List UInt8) :=
  [(bytesOf firstPieces).take 20, ((bytesOf firstPieces).drop 20).dropLast]

def firstWorld : StreamWorld :=
  StreamWorld.run "s" { session := createdSession, hub := ⟨∅, [], 1⟩, published := 1
                        stream := .start 0 }
    [.advance, .advance, .advance, .advance, .commit (fun _ => "t1") createdProjection [.queuePaused],
      .publish pausedRecord, .advance]

def secondWorld : StreamWorld :=
  StreamWorld.run "s" { firstWorld with stream := .start 1 } [.advance, .advance, .advance]

def firstFollower : Follower :=
  (Follower.start silentFollower 0).response readTwo silentFollower firstChunks

def secondFollower : Follower :=
  firstFollower.response readTwo silentFollower [bytesOf secondPieces]

theorem pieces_sound : (∀ piece ∈ firstPieces, piece.Sound readTwo) ∧
    ∀ piece ∈ secondPieces, piece.Sound readTwo := by
  have hpaused : Deliverable readTwo pausedRecord .queuePaused :=
    readTwo_deliverable (by rw [show SemanticEvent.queuePaused.column = .null by decide +kernel]; trivial)
      (by decide) (by decide +kernel) (by decide +kernel)
  have hcreated : Deliverable readTwo createdEvent.record (.sessionCreated none) := by
    refine readTwo_deliverable ?_ (by decide) (by decide +kernel) (by decide +kernel)
    rw [show (SemanticEvent.sessionCreated none).column = .obj [("title", .null)] by decide +kernel]
    exact ⟨trivial, trivial⟩
  refine ⟨?_, ?_⟩
  · intro piece hpiece
    simp only [firstPieces, List.mem_cons, List.not_mem_nil, or_false] at hpiece
    rcases hpiece with rfl | rfl | rfl
    · exact ⟨_, .inr ⟨rfl, rfl⟩, hcreated⟩
    · trivial
    · exact ⟨_, .inl ⟨rfl, rfl⟩, hpaused⟩
  · intro piece hpiece
    rw [List.mem_singleton.mp hpiece]
    exact ⟨_, .inr ⟨rfl, rfl⟩, hpaused⟩

theorem follow_once_resumed : firstFollower.lastSeen = 1 ∧ secondFollower.lastSeen = 2 ∧
    ∃ seen : List (Nat × Json), seen.map Prod.fst = [1, 2] ∧
      secondFollower = seen.foldl (Follower.handle silentFollower) (.start silentFollower 0) := by
  have hlast : firstFollower.lastSeen = 1 ∧ firstFollower.returned = false ∧
      secondFollower.lastSeen = 2 := by decide +kernel
  have harrived : firstChunks.flatten <+: bytesOf firstPieces := by
    refine ⟨((bytesOf firstPieces).drop 20).drop (((bytesOf firstPieces).drop 20).length - 1), ?_⟩
    rw [firstChunks, List.flatten_cons, List.flatten_singleton, List.dropLast_eq_take,
      List.append_assoc, List.take_append_drop, List.take_append_drop]
  have hfirst : Connects "s" readTwo silentFollower layout aliveText (fun _ => "")
      ({ session := createdSession, hub := ⟨∅, [], 1⟩, published := 1, stream := .start 0 },
        .start silentFollower 0) (firstWorld, firstFollower) :=
    .response _ firstPieces firstChunks rfl (by decide +kernel) (by decide +kernel)
      pieces_sound.1 harrived
  have hsecond : Connects "s" readTwo silentFollower layout aliveText (fun _ => "")
      (firstWorld, firstFollower) (secondWorld, secondFollower) :=
    @Connects.response _ _ _ _ _ _ _ _ 1 _ secondPieces [bytesOf secondPieces] hlast.2.1
      (by rw [hlast.1]; decide +kernel) (by decide +kernel) pieces_sound.2
      (by rw [List.flatten_singleton]; exact List.prefix_rfl)
  obtain ⟨seen, -, hids, hf⟩ := follow_once layout_lines createdSession_coherent.dense le_rfl
    (EventHub.wellFormed_empty 1) (.start 0) 0 ((Relation.ReflTransGen.single hfirst).tail hsecond)
  refine ⟨hlast.1, hlast.2.2, seen, ?_, hf⟩
  rw [hids, hlast.2.2]
  rfl

end Piqo
