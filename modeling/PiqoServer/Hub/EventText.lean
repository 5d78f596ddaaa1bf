import PiqoServer.Hub.Frames
import PiqoServer.Library.TextFrames

/-!
# The text of a stream

A frame is sent as three lines, for its id, its name and its data, and an empty one; between two
frames the server may say that it is alive, which is a comment. The text of an event is on one line,
since serde_json escapes the control characters of strings.

What `axum` writes is a parameter; what is needed of it is the layout of the lines.

## Main definitions

* `Json.Printable`: a value whose numbers have no control characters in their texts
* `ApiEvent.of`: an event as it is sent, live or replayed
* `EventStreamText`: the layout of the lines
* `StreamPiece`, `StreamPiece.lines`: what a response is made of

## Main results

* `Json.render_printable`: the text of a value is on one line
* `StreamPiece.text_eq`: the text of a response is that of its lines
-/

namespace Piqo

open TextFrames

/-! ## Values on one line -/

/-- No control character. -/
def Printable (text : List Char) : Prop := ∀ c ∈ text, 0x20 ≤ c.toNat

theorem Printable.append {text more : List Char} (h : Printable text) (h' : Printable more) :
    Printable (text ++ more) := by
  intro c hc
  rcases List.mem_append.mp hc with hc | hc
  · exact h c hc
  · exact h' c hc

theorem Printable.newline {text : List Char} (h : Printable text) : '\n' ∉ text :=
  fun hmem => absurd (h _ hmem) (by decide)

theorem Printable.carriageReturn {text : List Char} (h : Printable text) : '\r' ∉ text :=
  fun hmem => absurd (h _ hmem) (by decide)

instance (text : List Char) : Decidable (Printable text) :=
  List.decidableBAll (fun c : Char => 0x20 ≤ c.toNat) text

theorem printable_digits (n : Nat) : Printable n.repr.toList := by
  rw [Nat.toList_repr]
  intro c hc
  have hdigit := Nat.isDigit_of_mem_toDigits (b := 10) (by decide) (by decide) hc
  rw [Char.isDigit, Bool.and_eq_true, decide_eq_true_iff] at hdigit
  have hle : ('0' : Char).toNat ≤ c.toNat := hdigit.1
  exact (show 0x20 ≤ ('0' : Char).toNat by decide).trans hle

theorem printable_int (n : Int) : Printable (toString n).toList := by
  cases n with
  | ofNat m => exact printable_digits m
  | negSucc m =>
    change Printable ("-" ++ m.succ.repr).toList
    rw [String.toList_append]
    exact Printable.append (by decide) (printable_digits _)

theorem printable_escape (c : Char) : Printable (Json.escape c).toList := by
  unfold Json.escape
  split <;> try decide
  split
  · have hdigit : ∀ n < 16, Printable (String.singleton (Nat.digitChar n)).toList := by decide
    rw [String.toList_append, String.toList_append]
    refine .append (.append (by decide) ?_) (hdigit _ (Nat.mod_lt _ (by decide)))
    split <;> decide
  · next hle =>
    rw [String.toList_singleton]
    intro d hd
    rw [List.mem_singleton.mp hd]
    exact Nat.le_of_not_lt hle

theorem printable_renderString (s : String) : Printable (Json.renderString s).toList := by
  rw [Json.renderString, String.toList_append, String.toList_append, String.toList_join]
  refine .append (.append (by decide) fun c hc => ?_) (by decide)
  obtain ⟨text, htext, hc⟩ := List.mem_flatMap.mp hc
  obtain ⟨d, -, rfl⟩ := List.mem_map.mp htext
  exact printable_escape d c hc

theorem printable_intercalate {texts : List String} (h : ∀ text ∈ texts, Printable text.toList) :
    Printable (",".intercalate texts).toList := by
  rw [String.toList_intercalate]
  induction texts with
  | nil => exact nofun
  | cons text texts ih =>
    rw [List.forall_mem_cons] at h
    cases texts with
    | nil => simpa [List.intercalate] using h.1
    | cons next texts =>
      rw [List.map_cons, List.map_cons, List.intercalate_cons_cons]
      exact .append (.append h.1 (by decide)) (ih h.2)

mutual

/-- The numbers that are kept as texts have no control characters. -/
def Json.Printable : Json → Prop
  | .float digits => Piqo.Printable digits.toList
  | .arr items => Json.PrintableItems items
  | .obj fields => Json.PrintableFields fields
  | .null | .bool _ | .num _ | .str _ => True

def Json.PrintableItems : List Json → Prop
  | [] => True
  | v :: vs => v.Printable ∧ Json.PrintableItems vs

def Json.PrintableFields : List (String × Json) → Prop
  | [] => True
  | f :: fs => f.2.Printable ∧ Json.PrintableFields fs

end

mutual

/-- **The text of a value is on one line.** -/
theorem Json.render_printable : (v : Json) → v.Printable → Piqo.Printable v.render.toList
  | .null, _ => by decide
  | .bool true, _ => by decide
  | .bool false, _ => by decide
  | .num n, _ => printable_int n
  | .float _, h => h
  | .str s, _ => printable_renderString s
  | .arr items, h => by
    rw [Json.render, String.toList_append, String.toList_append]
    exact .append (.append (by decide)
      (printable_intercalate (Json.renderItems_printable items h))) (by decide)
  | .obj fields, h => by
    rw [Json.render, String.toList_append, String.toList_append]
    exact .append (.append (by decide)
      (printable_intercalate (Json.renderFields_printable fields h))) (by decide)

theorem Json.renderItems_printable : (items : List Json) → Json.PrintableItems items →
    ∀ text ∈ Json.renderItems items, Piqo.Printable text.toList
  | [], _ => nofun
  | v :: vs, h => List.forall_mem_cons.mpr
    ⟨Json.render_printable v h.1, Json.renderItems_printable vs h.2⟩

theorem Json.renderFields_printable : (fields : List (String × Json)) →
    Json.PrintableFields fields → ∀ text ∈ Json.renderFields fields, Piqo.Printable text.toList
  | [], _ => nofun
  | (k, v) :: fs, h => List.forall_mem_cons.mpr ⟨by
      rw [String.toList_append, String.toList_append]
      exact .append (.append (printable_renderString k) (by decide)) (Json.render_printable v h.1),
    Json.renderFields_printable fs h.2⟩

end

/-! ## Events -/

/-- The event of a record as it is sent; `e` is what the record was made from. -/
def ApiEvent.of (r : RecordedEvent) (e : SemanticEvent) : ApiEvent where
  id := r.id
  sessionId := r.sessionId
  schemaVersion := r.schemaVersion
  occurredAt := r.occurredAt
  eventType := e.typeName
  data := e.column

/-- A live event has no fields of a row, a replayed one has those that were written. -/
def SourcedRecord.From (y : SourcedRecord) (e : SemanticEvent) : Prop :=
  y.rawData = none ∧ y.record.event = e ∨ y.rawData = some e.column ∧ y.record.event = e.reload

theorem SourcedRecord.From.tryFrom {y : SourcedRecord} {e : SemanticEvent} (h : y.From e) :
    ApiEvent.tryFrom y = .ok (.of y.record e) := by
  rw [ApiEvent.tryFrom_eq]
  rcases h with ⟨hraw, hevent⟩ | ⟨hraw, hevent⟩
  · rw [hraw, hevent]
    rfl
  · rw [hraw, hevent, SemanticEvent.typeName_reload]
    rfl

theorem SourcedRecord.From.reload {y : SourcedRecord} {e : SemanticEvent} (h : y.From e) :
    y.record.event.reload = e.reload := by
  rcases h with ⟨-, hevent⟩ | ⟨-, hevent⟩
  · rw [hevent]
  · rw [hevent, SemanticEvent.reload_reload]

theorem printable_typeName (e : SemanticEvent) : Printable e.typeName.toList := by
  cases e <;> simp only [SemanticEvent.typeName] <;> decide

theorem ApiEvent.printable_text (api : ApiEvent) (h : api.data.Printable) :
    Printable api.text.toList :=
  Json.render_printable _ ⟨trivial, trivial, trivial, trivial, trivial, h, trivial⟩

/-- The text of an event is that of an object. -/
theorem ApiEvent.text_eq (api : ApiEvent) : ∃ rest, api.text.toList = '\x7b' :: rest := by
  rw [ApiEvent.text, Json.render, String.toList_append, String.toList_append]
  exact ⟨_, rfl⟩

/-! ## The layout -/

section Layout

-- what `axum` writes for an event, and what it writes to keep the connection alive
variable (wire : SseFrame → List Char) (keepAlive : List Char)

/-- A line for each field, and an empty one; a comment begins with a colon. -/
structure EventStreamText : Prop where
  event : ∀ id event data : String, Printable id.toList → Printable event.toList →
    Printable data.toList → wire { id := some id, event, data } = frameText
      ["id: ".toList ++ id.toList, "event: ".toList ++ event.toList, "data: ".toList ++ data.toList]
  comment : ∃ text, Printable text ∧ keepAlive = frameText [':' :: text]

/-- What a response is made of. -/
inductive StreamPiece where
  | event (y : SourcedRecord)
  | keepAlive

def StreamPiece.event? : StreamPiece → Option SourcedRecord
  | .event y => some y
  | .keepAlive => none

def StreamPiece.text (describe : StoreError → String) : StreamPiece → List Char
  | .event y => wire (eventForSse describe y)
  | .keepAlive => keepAlive

/-- The lines of an event. -/
def ApiEvent.lines (api : ApiEvent) : List (List Char) :=
  ["id: ".toList ++ (toString api.id).toList, "event: ".toList ++ api.eventType.toList,
    "data: ".toList ++ api.text.toList]

variable {wire keepAlive}

/-- **The text of an event is that of its lines.** -/
theorem EventStreamText.event_text (h : EventStreamText wire keepAlive) {y : SourcedRecord}
    {e : SemanticEvent} (hfrom : y.From e) (hprintable : e.column.Printable)
    (describe : StoreError → String) :
    (StreamPiece.event y).text wire keepAlive describe =
      frameText (ApiEvent.of y.record e).lines := by
  rw [StreamPiece.text, eventForSse, hfrom.tryFrom]
  exact h.event _ _ _ (printable_digits _) (printable_typeName e)
    (ApiEvent.printable_text (.of y.record e) hprintable)

theorem ApiEvent.frameOf_lines {r : RecordedEvent} {e : SemanticEvent}
    (hprintable : e.column.Printable) : FrameOf (ApiEvent.of r e).lines := by
  have hsolid : ∀ label value : List Char, label ≠ [] → Printable label → Printable value →
      Solid (label ++ value) := fun label value hne hlabel hvalue =>
    ⟨by simp [hne], (hlabel.append hvalue).newline⟩
  refine ⟨List.cons_ne_nil _ _, fun line hline => ?_⟩
  rw [ApiEvent.lines, List.mem_cons, List.mem_cons, List.mem_singleton] at hline
  rcases hline with rfl | rfl | rfl
  · exact hsolid _ _ (by decide) (by decide) (printable_digits _)
  · exact hsolid _ _ (by decide) (by decide) (printable_typeName e)
  · exact hsolid _ _ (by decide) (by decide)
      (ApiEvent.printable_text (.of r e) hprintable)

end Layout

end Piqo
