import PiqoServer.Core.Encoding
import PiqoServer.Core.History
import PiqoServer.Storage.Database

/-!
# The columns of an event

An event is stored in two columns: the name of its variant, and the text of its fields. Reading a
row parses the text, puts the two together again and decodes them. The parser of the text is a
parameter; what is needed of it is that it reads the texts that were written.

## Main definitions

* `EventColumns`: the columns of a row of `events`
* `EventColumns.ofEvent`: the columns `insert_event_row` writes
* `EventColumns.recorded`: the record `recorded_from_row` reads
* `SemanticEvent.Plain`: no optional value of an event is a present `null`

## Main results

* `recorded_ofEvent`: what is read of the columns of an event
* `stored_event_iff`: an event survives storage exactly when it is plain
-/

namespace Piqo

/-! ## Columns -/

/-- The columns of a row of `events` under its session and id. -/
structure EventColumns where
  schemaVersion : Int
  type : String
  data : String
  occurredAt : String
  deriving DecidableEq, Repr

/-- A record with the fields it was read from; a record that was not read has none. -/
structure SourcedRecord where
  record : RecordedEvent
  rawData : Option Json
  deriving DecidableEq

namespace SemanticEvent

/-- The value of the `data` column. -/
def column (e : SemanticEvent) : Json := (e.toJson.get "data").getD .null

@[simp] theorem toJson_type (e : SemanticEvent) :
    (e.toJson.get "type").bind Json.asStr? = some e.typeName := by
  cases hdata : e.data? <;>
    simp [toJson, Json.tagged, hdata, Json.get_object, SortedMap.lookup, Json.asStr?]

theorem column_eq (e : SemanticEvent) : e.column = e.data?.getD .null := by
  cases hdata : e.data? <;>
    simp [column, toJson, Json.tagged, hdata, Json.get_object, SortedMap.lookup]

end SemanticEvent

namespace EventColumns

/-- The columns of an event as `insert_event_row` writes them. -/
def ofEvent (sessionId occurredAt : String) (event : SemanticEvent) :
    Except StoreError EventColumns :=
  match (event.toJson.get "type").bind Json.asStr? with
  | none => .error (.corruptSession sessionId "event has no type")
  | some type => .ok {
      schemaVersion := eventSchemaVersion, type, data := event.column.render, occurredAt }

/-- The version of a row; one that is no `u16` is reported as the largest. -/
def version (c : EventColumns) : Nat :=
  if 0 ≤ c.schemaVersion ∧ c.schemaVersion ≤ 65535 then c.schemaVersion.toNat else 65535

/-- The record of a row as `recorded_from_row` reads it. -/
def recorded (fromStr : String → Option Json) (sessionId : String) (eventId : Nat)
    (c : EventColumns) : Except StoreError SourcedRecord :=
  if c.version ≠ eventSchemaVersion then .error (.unsupportedSchemaVersion c.version)
  else match fromStr c.data with
    | none => .error .json
    | some data =>
      match SemanticEvent.read (.object [("type", .str c.type), ("data", data)]) with
      | none => .error .json
      | some event => .ok {
          record := {
            id := eventId, sessionId, schemaVersion := c.version, occurredAt := c.occurredAt
            event }
          rawData := some data }

end EventColumns

/-- The columns that an event is written to. -/
def columnsOf (occurredAt : String) (event : SemanticEvent) : EventColumns where
  schemaVersion := eventSchemaVersion
  type := event.typeName
  data := event.column.render
  occurredAt := occurredAt

theorem EventColumns.ofEvent_eq (sessionId occurredAt : String) (event : SemanticEvent) :
    EventColumns.ofEvent sessionId occurredAt event = .ok (columnsOf occurredAt event) := by
  rw [EventColumns.ofEvent, SemanticEvent.toJson_type]
  rfl

/-- The parser reads the text of an event's fields. -/
def ReadsText (fromStr : String → Option Json) (event : SemanticEvent) : Prop :=
  fromStr event.column.render = some event.column

instance (fromStr : String → Option Json) (event : SemanticEvent) :
    Decidable (ReadsText fromStr event) :=
  inferInstanceAs (Decidable (_ = _))

variable {fromStr : String → Option Json} {event : SemanticEvent}

/-- What is read of the columns of an event. -/
theorem recorded_columnsOf (hsized : event.Sized) (htext : ReadsText fromStr event)
    (sessionId occurredAt : String) (eventId : Nat) :
    (columnsOf occurredAt event).recorded fromStr sessionId eventId = .ok {
      record := {
        id := eventId, sessionId, schemaVersion := eventSchemaVersion, occurredAt
        event := event.reload }
      rawData := some event.column } := by
  have hread := SemanticEvent.read_columns hsized
  have hparse : fromStr (columnsOf occurredAt event).data = some event.column := htext
  rw [← SemanticEvent.column_eq] at hread
  have hversion : (columnsOf occurredAt event).version = eventSchemaVersion := rfl
  simp only [EventColumns.recorded, hversion, hparse]
  simp only [columnsOf, hread]
  rfl

/-! ## Events that survive -/

/-- No optional value of the result is a present `null`. -/
def AgentResult.Plain (r : AgentResult) : Prop := r.output ≠ some .null ∧ r.usage ≠ some .null

/-- No optional value of the event is a present `null`. -/
def SemanticEvent.Plain : SemanticEvent → Prop
  | .runCompleted _ usage => usage ≠ some .null
  | .agentFinished _ result => ∀ r ∈ result, r.Plain
  | .agentResultDelivered _ _ _ result => result.Plain
  | _ => True

theorem reloadValue_eq_iff (v : Option Json) : reloadValue v = v ↔ v ≠ some .null := by
  rcases v with _ | ⟨_ | _ | _ | _ | _ | _ | _⟩ <;> simp [reloadValue]

theorem AgentResult.reload_eq_iff (r : AgentResult) : r.reload = r ↔ r.Plain := by
  rw [AgentResult.Plain, ← reloadValue_eq_iff, ← reloadValue_eq_iff]
  obtain ⟨_, _, _, _, _, _, _, _, _⟩ := r
  simp [AgentResult.reload]

theorem SemanticEvent.reload_eq_iff (e : SemanticEvent) : e.reload = e ↔ e.Plain := by
  cases e with
  | runCompleted runId usage => simp [SemanticEvent.reload, SemanticEvent.Plain, reloadValue_eq_iff]
  | agentFinished agentId result =>
    cases result <;>
      simp [SemanticEvent.reload, SemanticEvent.Plain, AgentResult.reload_eq_iff]
  | agentResultDelivered agentId parentRunId parentCallId result =>
    simp [SemanticEvent.reload, SemanticEvent.Plain, AgentResult.reload_eq_iff]
  | _ => exact iff_of_true rfl trivial

/-! ## Projections that survive -/

namespace SessionProjection

variable {p q : SessionProjection} {eventId : Nat}

/-- A projection is its own reload when no optional value in it is a present `null`. -/
theorem reload_eq_iff : p.reload = p ↔
    (∀ {runId run}, p.runs.get? runId = some run → run.usage ≠ some .null) ∧
      ∀ {agentId inst result}, p.agentInstances.get? agentId = some inst →
        inst.result = some result → result.Plain := by
  constructor
  · intro hreload
    constructor
    · intro runId run hrun
      have hruns : p.runs.mapValues RunProjection.reload = p.runs :=
        congrArg SessionProjection.runs hreload
      have hsame : run.reload = run := by
        have hmapped := hrun
        rw [← hruns, SortedMap.get?_mapValues, hrun] at hmapped
        exact Option.some.inj hmapped
      exact (reloadValue_eq_iff _).mp (congrArg RunProjection.usage hsame)
    · intro agentId inst result hinst hresult
      have hinstances : p.agentInstances.mapValues AgentProjection.reload = p.agentInstances :=
        congrArg SessionProjection.agentInstances hreload
      have hsame : inst.reload = inst := by
        have hmapped := hinst
        rw [← hinstances, SortedMap.get?_mapValues, hinst] at hmapped
        exact Option.some.inj hmapped
      have hresults := congrArg AgentProjection.result hsame
      rw [AgentProjection.reload, hresult] at hresults
      exact (AgentResult.reload_eq_iff result).mp (Option.some.inj hresults)
  · rintro ⟨hruns, hinstances⟩
    have hrunsEq : p.runs.mapValues RunProjection.reload = p.runs := by
      refine SortedMap.ext_get? fun runId => ?_
      rw [SortedMap.get?_mapValues]
      cases hrun : p.runs.get? runId with
      | none => rfl
      | some run =>
        rw [Option.map_some, RunProjection.reload, (reloadValue_eq_iff _).mpr (hruns hrun)]
    have hinstancesEq : p.agentInstances.mapValues AgentProjection.reload = p.agentInstances := by
      refine SortedMap.ext_get? fun agentId => ?_
      rw [SortedMap.get?_mapValues]
      cases hinst : p.agentInstances.get? agentId with
      | none => rfl
      | some inst =>
        rw [Option.map_some, AgentProjection.reload]
        cases hresult : inst.result with
        | none => rw [Option.map_none, ← hresult]
        | some result =>
          rw [Option.map_some, (AgentResult.reload_eq_iff result).mpr (hinstances hinst hresult),
            ← hresult]
    rw [reload, hrunsEq, hinstancesEq]

/-- What makes a lost value visible for good: results and usage are never overwritten. -/
structure Lasting (p : SessionProjection) : Prop where
  distinct : p.Distinct
  used : ∀ {runId run}, p.runs.get? runId = some run → run.usage.isSome = true →
    run.status = .completed

theorem Lasting.new (sessionId : String) : (new sessionId).Lasting where
  distinct := Distinct.new sessionId
  used h := by simp [SessionProjection.new] at h

theorem Lasting.apply (hp : p.Lasting) (h : p.apply eventId event = .ok q) : q.Lasting where
  distinct := hp.distinct.apply h
  used := apply_used h hp.used

/-- A run that has usage keeps it. -/
theorem apply_usage (hp : p.Lasting) (h : p.apply eventId event = .ok q) {runId : String}
    {run : RunProjection} (hrun : p.runs.get? runId = some run) (husage : run.usage.isSome = true) :
    ∃ run', q.runs.get? runId = some run' ∧ run'.usage = run.usage := by
  have hcompleted := hp.used hrun husage
  rcases apply_runs h with hruns | ⟨id, run', hruns, hchange⟩
  · exact ⟨run, hruns ▸ hrun, rfl⟩
  · by_cases hid : runId = id
    · subst hid
      refine ⟨run', by rw [hruns, SortedMap.get?_insert_self], ?_⟩
      rw [hrun] at hchange
      cases hchange <;> simp_all [RunStatus.live]
    · exact ⟨run, by rw [hruns, SortedMap.get?_insert_of_ne _ _ hid, hrun], rfl⟩

/-- A completed run shows the usage it completed with. -/
theorem apply_runCompleted {runId : String} {usage : Option Json}
    (h : p.apply eventId (.runCompleted runId usage) = .ok q) :
    ∃ run, q.runs.get? runId = some run ∧ run.usage = usage := by
  obtain ⟨state, -, hq⟩ := apply_eq_ok.mp h
  simp only [applyEvent, Except.bind_eq_ok, updateRun_eq_ok, Except.ok.injEq] at hq
  obtain ⟨_, -, run, _, -, rfl, rfl⟩ := hq
  exact ⟨_, SortedMap.get?_insert_self .., rfl⟩

/-- An instance that has finished with a result shows it. -/
theorem apply_agentFinished {agentId : String} {result : AgentResult}
    (h : p.apply eventId (.agentFinished agentId (some result)) = .ok q) :
    ∃ inst, q.agentInstances.get? agentId = some inst ∧ inst.result = some result := by
  obtain ⟨state, -, hq⟩ := apply_eq_ok.mp h
  simp only [applyEvent, updateInstance_eq_ok] at hq
  obtain ⟨inst, inst', -, hresult, rfl⟩ := hq
  refine ⟨inst', SortedMap.get?_insert_self .., ?_⟩
  split at hresult
  · next hopen heq =>
    cases hresult
    rfl
  · next existing result' hexisting heq =>
    obtain ⟨hsame, hinst⟩ := Except.ite_ok_eq_ok.mp hresult
    cases hinst
    rw [hexisting, hsame]
    exact heq.symm
  · next heq => cases heq

/-- An instance whose result was delivered shows it. -/
theorem apply_agentResultDelivered {agentId parentRunId parentCallId : String}
    {result : AgentResult}
    (h : p.apply eventId (.agentResultDelivered agentId parentRunId parentCallId result) = .ok q) :
    ∃ inst, q.agentInstances.get? agentId = some inst ∧ inst.result = some result := by
  obtain ⟨state, -, hq⟩ := apply_eq_ok.mp h
  simp only [applyEvent, updateInstance_eq_ok] at hq
  obtain ⟨inst, inst', -, hresult, rfl⟩ := hq
  refine ⟨inst', SortedMap.get?_insert_self .., ?_⟩
  split at hresult
  · cases hresult
    rfl
  · next existing hexisting =>
    obtain ⟨hsame, hinst⟩ := Except.ite_ok_eq_ok.mp hresult
    cases hinst
    rw [hexisting, hsame]

/-- What an event loses in storage shows in the projection. -/
theorem plain_of_apply (h : p.apply eventId event = .ok q) (hq : q.reload = q) : event.Plain := by
  obtain ⟨hruns, hinstances⟩ := reload_eq_iff.mp hq
  cases event with
  | runCompleted runId usage =>
    obtain ⟨run, hrun, husage⟩ := apply_runCompleted h
    exact husage ▸ hruns hrun
  | agentFinished agentId result =>
    intro r hr
    cases hr
    obtain ⟨inst, hinst, hresult⟩ := apply_agentFinished h
    exact hinstances hinst hresult
  | agentResultDelivered agentId parentRunId parentCallId result =>
    obtain ⟨inst, hinst, hresult⟩ := apply_agentResultDelivered h
    exact hinstances hinst hresult
  | _ => trivial

/-- What was lost before an event stays lost. -/
theorem reload_eq_of_apply (hp : p.Lasting) (h : p.apply eventId event = .ok q)
    (hq : q.reload = q) : p.reload = p := by
  obtain ⟨hruns, hinstances⟩ := reload_eq_iff.mp hq
  refine reload_eq_iff.mpr ⟨?_, ?_⟩
  · intro runId run hrun husage
    obtain ⟨run', hrun', hsame⟩ := apply_usage hp h hrun (by rw [husage]; rfl)
    exact hruns hrun' (hsame.trans husage)
  · intro agentId inst result hinst hresult
    obtain ⟨inst', hinst', hkeeps, -⟩ := (Keeps.apply hp.distinct h).agent hinst
    exact hinstances hinst' (hkeeps result hresult)

/-- The projection of an accepted log survives exactly when all its events do. -/
theorem reload_applyLog_iff {log : List (Nat × SemanticEvent)} (hp : p.Lasting)
    (h : p.applyLog log = .ok q) :
    q.reload = q ↔ p.reload = p ∧ ∀ entry ∈ log, entry.2.Plain := by
  induction log generalizing p with
  | nil =>
    cases h
    simp
  | cons entry log ih =>
    obtain ⟨p', happly, hrest⟩ := applyLog_cons_eq_ok.mp h
    rw [ih (hp.apply happly) hrest, List.forall_mem_cons]
    constructor
    · rintro ⟨hp', hlog⟩
      exact ⟨reload_eq_of_apply hp happly hp', plain_of_apply happly hp', hlog⟩
    · rintro ⟨hreload, hentry, hlog⟩
      exact ⟨apply_reload_eq hreload ((SemanticEvent.reload_eq_iff _).mpr hentry) happly, hlog⟩

/-- Replaying the reloaded events gives the reloaded projection. -/
theorem applyLog_reload {log : List (Nat × SemanticEvent)} (h : p.applyLog log = .ok q) :
    p.reload.applyLog (log.map fun entry => (entry.1, entry.2.reload)) = .ok q.reload := by
  induction log generalizing p with
  | nil =>
    cases h
    rfl
  | cons entry log ih =>
    obtain ⟨p', happly, hrest⟩ := applyLog_cons_eq_ok.mp h
    exact applyLog_cons_eq_ok.mpr ⟨p'.reload, apply_reload happly, ih hrest⟩

end SessionProjection

/-! ## Storing a log -/

/-- Store the events of a log and read them back. -/
def readBack (fromStr : String → Option Json) (sessionId occurredAt : String) :
    List (Nat × SemanticEvent) → Except StoreError (List (Nat × SemanticEvent))
  | [] => .ok []
  | (eventId, event) :: log =>
    (EventColumns.ofEvent sessionId occurredAt event).bind fun columns =>
      (columns.recorded fromStr sessionId eventId).bind fun stored =>
        (readBack fromStr sessionId occurredAt log).map
          ((stored.record.id, stored.record.event) :: ·)

theorem readBack_eq {log : List (Nat × SemanticEvent)} (sessionId occurredAt : String)
    (hlog : ∀ entry ∈ log, entry.2.Sized ∧ ReadsText fromStr entry.2) :
    readBack fromStr sessionId occurredAt log =
      .ok (log.map fun entry => (entry.1, entry.2.reload)) := by
  induction log with
  | nil => rfl
  | cons entry log ih =>
    obtain ⟨⟨hsized, htext⟩, hrest⟩ := List.forall_mem_cons.mp hlog
    rw [readBack, EventColumns.ofEvent_eq, Except.bind,
      recorded_columnsOf hsized htext, Except.bind, ih hrest]
    rfl

/-- **Events survive storage exactly when they are plain.** A log comes back as it was stored if
and only if no optional value in it is a present `null`, and an accepted log replays to the
projection that its events left in memory under the same condition. -/
theorem storage_survival_iff (fromStr : String → Option Json) (sessionId occurredAt : String)
    (log : List (Nat × SemanticEvent))
    (hlog : ∀ entry ∈ log, entry.2.Sized ∧ ReadsText fromStr entry.2) :
    (readBack fromStr sessionId occurredAt log = .ok log ↔ ∀ entry ∈ log, entry.2.Plain) ∧
      ∀ p, (SessionProjection.new sessionId).applyLog log = .ok p →
        ((∃ back, readBack fromStr sessionId occurredAt log = .ok back ∧
          (SessionProjection.new sessionId).applyLog back = .ok p) ↔
            ∀ entry ∈ log, entry.2.Plain) := by
  rw [readBack_eq sessionId occurredAt hlog]
  constructor
  · rw [Except.ok.injEq]
    constructor
    · intro hsame entry hentry
      have hmapped : log.map (fun entry => (entry.1, entry.2.reload)) = log.map id := by
        rw [hsame, List.map_id]
      have hsnd := congrArg Prod.snd (List.map_inj_left.mp hmapped entry hentry)
      exact (SemanticEvent.reload_eq_iff _).mp hsnd
    · intro hplain
      have hmapped : log.map (fun entry => (entry.1, entry.2.reload)) = log.map id := by
        refine List.map_inj_left.mpr ?_
        intro entry hentry
        rw [(SemanticEvent.reload_eq_iff _).mpr (hplain entry hentry)]
        rfl
      rw [hmapped, List.map_id]
  · intro p hp
    have hreload := SessionProjection.applyLog_reload hp
    rw [SessionProjection.reload_new] at hreload
    have hiff := SessionProjection.reload_applyLog_iff (SessionProjection.Lasting.new sessionId) hp
    constructor
    · rintro ⟨back, hback, happly⟩
      cases hback
      rw [hreload] at happly
      exact (hiff.mp (Except.ok.inj happly)).2
    · intro hplain
      have hsame := hiff.mpr ⟨SessionProjection.reload_new sessionId, hplain⟩
      exact ⟨_, rfl, by rw [hreload, hsame]⟩

/-- A parser that knows the texts of some events. -/
def parserOf (events : List SemanticEvent) (text : String) : Option Json :=
  (events.find? fun event => event.column.render = text).map (·.column)

/-- A provider that reports no usage as `null`. -/
def nullUsage : SemanticEvent := .runCompleted "r" (some .null)

/-- A present `null` comes back absent. -/
theorem nullUsage_lost : nullUsage.Sized ∧ ReadsText (parserOf [nullUsage]) nullUsage ∧
    readBack (parserOf [nullUsage]) "s" "t1" [(1, nullUsage)] =
      .ok [(1, .runCompleted "r" none)] ∧
    readBack (parserOf [nullUsage]) "s" "t1" [(1, nullUsage)] ≠ .ok [(1, nullUsage)] := by
  refine ⟨trivial, by decide +kernel, by decide +kernel, by decide +kernel⟩

/-- A run that completes with usage. -/
def usedLog : List (Nat × SemanticEvent) :=
  [(1, .runQueued "r" none "p" "m" .null), (2, .runCompleted "r" (some (.num 3)))]

theorem storage_survival_usedLog :
    readBack (parserOf (usedLog.map Prod.snd)) "s" "t1" usedLog = .ok usedLog := by
  refine (storage_survival_iff (parserOf (usedLog.map Prod.snd)) "s" "t1" usedLog ?_).1.mpr ?_
  · intro entry hentry
    simp only [usedLog, List.mem_cons, List.not_mem_nil, or_false] at hentry
    rcases hentry with rfl | rfl
    · exact ⟨trivial, by decide +kernel⟩
    · exact ⟨trivial, by decide +kernel⟩
  · intro entry hentry
    simp only [usedLog, List.mem_cons, List.not_mem_nil, or_false] at hentry
    rcases hentry with rfl | rfl
    · trivial
    · simp [SemanticEvent.Plain]

end Piqo
