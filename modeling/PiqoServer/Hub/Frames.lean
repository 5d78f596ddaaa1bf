import PiqoServer.Storage.Columns
import PiqoServer.Storage.Coherence

/-!
# The frames of a stream

A client sees an event as a frame: its id, the name of its variant, and the text of an object with
the position, the name and the fields of the event. A live event is encoded from the record that
`append_events` returned; a replayed one passes on the fields its row was read from.

## Main definitions

* `ApiEvent`, `ApiEvent.tryFrom`: an event as clients see it
* `SseFrame`, `eventForSse`: the frame of an event

## Main results

* `live_eq_replayed`: a live event and its replay have the same frame
-/

namespace Piqo

structure ApiEvent where
  id : Nat
  sessionId : String
  schemaVersion : Nat
  occurredAt : String
  eventType : String
  data : Json
  deriving DecidableEq

namespace ApiEvent

def tryFrom (event : SourcedRecord) : Except StoreError ApiEvent :=
  let value := event.record.event.toJson
  match (value.get "type").bind Json.asStr? with
  | none => .error (.corruptSession event.record.sessionId "event has no type")
  | some eventType => .ok {
      id := event.record.id
      sessionId := event.record.sessionId
      schemaVersion := event.record.schemaVersion
      occurredAt := event.record.occurredAt
      eventType
      data := event.rawData.getD ((value.get "data").getD .null) }

/-- The text of an event; the fields of a struct stand in the order of their declaration. -/
def text (event : ApiEvent) : String := Json.render (.obj
  [("id", .ofNat event.id), ("session_id", .str event.sessionId),
    ("schema_version", .ofNat event.schemaVersion), ("occurred_at", .str event.occurredAt),
    ("type", .str event.eventType), ("data", event.data)])

end ApiEvent

/-- A frame of a stream of server-sent events. -/
structure SseFrame where
  id : Option String
  event : String
  data : String
  deriving DecidableEq, Repr

/-- The frame of an event; `describe` is the text of an error. -/
def eventForSse (describe : StoreError → String) (event : SourcedRecord) : SseFrame :=
  match ApiEvent.tryFrom event with
  | .ok api => { id := some (toString api.id), event := api.eventType, data := api.text }
  | .error e => { id := none, event := "error", data := describe e }

/-- Reloading an event keeps its variant. -/
@[simp] theorem SemanticEvent.typeName_reload (e : SemanticEvent) :
    e.reload.typeName = e.typeName := by
  cases e <;> rfl

theorem ApiEvent.tryFrom_eq (event : SourcedRecord) : ApiEvent.tryFrom event = .ok {
    id := event.record.id
    sessionId := event.record.sessionId
    schemaVersion := event.record.schemaVersion
    occurredAt := event.record.occurredAt
    eventType := event.record.event.typeName
    data := event.rawData.getD event.record.event.column } := by
  rw [ApiEvent.tryFrom, SemanticEvent.toJson_type]
  rfl

/-- A record as `append_events` returns and publishes it. -/
def published (sessionId : String) (now : Nat → String) (eventId : Nat) (event : SemanticEvent) :
    SourcedRecord where
  record := StoredSession.returnedOf sessionId now eventId event
  rawData := none

/-- **A live event and its replay are indistinguishable.** The row of an appended event can be
read back, and the record read has the same `ApiEvent` and the same frame as the one that was
returned and published. -/
theorem live_eq_replayed (fromStr : String → Option Json) (describe : StoreError → String)
    (sessionId : String) (now : Nat → String) (eventId : Nat) (event : SemanticEvent)
    (hsized : event.Sized) (htext : ReadsText fromStr event) :
    ∃ columns stored, EventColumns.ofEvent sessionId (now eventId) event = .ok columns ∧
      columns.recorded fromStr sessionId eventId = .ok stored ∧
      ApiEvent.tryFrom stored = ApiEvent.tryFrom (published sessionId now eventId event) ∧
      eventForSse describe stored = eventForSse describe (published sessionId now eventId event) := by
  have hread := recorded_columnsOf hsized htext sessionId (now eventId) eventId
  refine ⟨_, _, EventColumns.ofEvent_eq sessionId (now eventId) event, hread, ?_⟩
  -- the fields are passed on as they were written, and the name survives the reload
  have hapi : ApiEvent.tryFrom {
      record := {
        id := eventId, sessionId, schemaVersion := eventSchemaVersion, occurredAt := now eventId
        event := event.reload }
      rawData := some event.column } =
        ApiEvent.tryFrom (published sessionId now eventId event) := by
    rw [ApiEvent.tryFrom_eq, ApiEvent.tryFrom_eq]
    simp [published, StoredSession.returnedOf]
  exact ⟨hapi, by rw [eventForSse, eventForSse, hapi]⟩

theorem live_eq_replayed_nullUsage :
    ∃ columns stored, EventColumns.ofEvent "s" "t1" nullUsage = .ok columns ∧
      columns.recorded (parserOf [nullUsage]) "s" 1 = .ok stored ∧
      stored.record.event = .runCompleted "r" none ∧
      ApiEvent.tryFrom stored = ApiEvent.tryFrom (published "s" (fun _ => "t1") 1 nullUsage) := by
  obtain ⟨columns, stored, hcolumns, hstored, hapi, -⟩ := live_eq_replayed (parserOf [nullUsage])
    (fun _ => "") "s" (fun _ => "t1") 1 nullUsage trivial (by decide +kernel)
  have hsized : nullUsage.Sized := trivial
  have htext : ReadsText (parserOf [nullUsage]) nullUsage := by decide +kernel
  have hread := recorded_columnsOf hsized htext "s" "t1" 1
  rw [EventColumns.ofEvent_eq] at hcolumns
  cases hcolumns
  rw [hread] at hstored
  cases hstored
  exact ⟨_, _, EventColumns.ofEvent_eq .., hread, rfl, hapi⟩

end Piqo
