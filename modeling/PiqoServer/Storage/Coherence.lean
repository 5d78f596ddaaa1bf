import PiqoServer.Storage.Database

/-!
# Rows and logs

What one transaction does to the rows of a session. Event ids come from the row, so they stay
dense whatever projection a transaction started from; the phase and revision written to the row
are those of that projection, so they follow the log only if the projection does.

## Main definitions

* `StoredSession.Dense`: the events have ids `1 … n`, and the row names the last
* `StoredSession.Coherent`: the log replays to a projection, and the row agrees with it

## Main results

* `Dense.appendAll`: appending keeps ids dense and adds the events at the end of the log
* `Coherent.appendAll`: appending from the projection of the log keeps row and log in agreement
* `replayFrom_append`: a log is replayed piece by piece
-/

namespace Piqo

/-! ## Reading rows -/

theorem recordedFromRows_append (sessionId : String) (rows rows' : List (Nat × EventRow)) :
    recordedFromRows sessionId (rows ++ rows') =
      (recordedFromRows sessionId rows).bind fun events =>
        (recordedFromRows sessionId rows').map (events ++ ·) := by
  induction rows with
  | nil =>
    simp only [List.nil_append, recordedFromRows, Except.bind]
    cases recordedFromRows sessionId rows' <;> rfl
  | cons row rows ih =>
    simp only [List.cons_append, recordedFromRows, ih]
    cases recordedFromRow sessionId row with
    | error e => rfl
    | ok event =>
      cases recordedFromRows sessionId rows with
      | error e => rfl
      | ok events => cases recordedFromRows sessionId rows' <;> rfl

/-- The record of a row of the current schema. -/
def recordOf (sessionId : String) (row : Nat × EventRow) : RecordedEvent where
  id := row.1
  sessionId := sessionId
  schemaVersion := row.2.schemaVersion
  occurredAt := row.2.occurredAt
  event := row.2.event

/-- The records of a session, in id order. -/
def StoredSession.records (s : StoredSession) (sessionId : String) : List RecordedEvent :=
  s.events.entries.map (recordOf sessionId)

theorem recordedFromRows_eq_ok {sessionId : String} {rows : List (Nat × EventRow)}
    {events : List RecordedEvent} :
    recordedFromRows sessionId rows = .ok events ↔
      (∀ row ∈ rows, row.2.schemaVersion = eventSchemaVersion) ∧
        events = rows.map (recordOf sessionId) := by
  induction rows generalizing events with
  | nil => simp [recordedFromRows, eq_comm]
  | cons row rows ih =>
    simp only [recordedFromRows, Except.bind_eq_ok, Except.map_eq_ok, recordedFromRow, ih,
      Except.ite_error_eq_ok, Except.ok.injEq, List.mem_cons, List.map_cons, not_not]
    constructor
    · rintro ⟨event, ⟨hrow, rfl⟩, tail, ⟨hrows, rfl⟩, rfl⟩
      refine ⟨?_, rfl⟩
      rintro r (rfl | hr)
      · exact hrow
      · exact hrows r hr
    · rintro ⟨hrows, rfl⟩
      exact ⟨_, ⟨hrows row (.inl rfl), rfl⟩, _, ⟨fun r hr => hrows r (.inr hr), rfl⟩, rfl⟩

/-! ## Replaying -/

theorem replayFrom_append (sessionId : String) (n : Nat) (p : SessionProjection)
    (events events' : List RecordedEvent) :
    replayFrom sessionId n p (events ++ events') =
      (replayFrom sessionId n p events).bind fun q =>
        replayFrom sessionId (n + events.length) q events' := by
  induction events generalizing n p with
  | nil => rfl
  | cons event events ih =>
    simp only [List.cons_append, replayFrom, List.length_cons]
    split
    · rfl
    · cases (p.apply event.id event.event).mapError StoreError.invalidTransition with
      | error e => rfl
      | ok q =>
        simp only [Except.bind]
        rw [ih, Nat.add_right_comm, Nat.add_assoc]
        rfl

theorem replayFrom_cons_eq_ok {sessionId : String} {n : Nat} {p q : SessionProjection}
    {event : RecordedEvent} {events : List RecordedEvent} :
    replayFrom sessionId n p (event :: events) = .ok q ↔
      event.id = n ∧ event.schemaVersion = eventSchemaVersion ∧
        ∃ p', p.apply n event.event = .ok p' ∧ replayFrom sessionId (n + 1) p' events = .ok q := by
  simp only [replayFrom, Except.ite_error_eq_ok, not_or, not_not, Except.bind_eq_ok,
    Except.mapError_eq_ok]
  constructor
  · rintro ⟨⟨rfl, hv⟩, hrest⟩
    exact ⟨rfl, hv, hrest⟩
  · rintro ⟨rfl, hv, hrest⟩
    exact ⟨⟨rfl, hv⟩, hrest⟩

theorem replayFrom_ids {sessionId : String} {n : Nat} {p q : SessionProjection}
    {events : List RecordedEvent} (h : replayFrom sessionId n p events = .ok q) :
    events.map (·.id) = List.range' n events.length := by
  induction events generalizing n p with
  | nil => rfl
  | cons event events ih =>
    obtain ⟨hid, -, p', -, hrest⟩ := replayFrom_cons_eq_ok.mp h
    simp [List.range'_succ, hid, ih hrest]

theorem replayFrom_lastEventId {sessionId : String} {n : Nat} {p q : SessionProjection}
    {events : List RecordedEvent} (h : replayFrom sessionId n p events = .ok q) :
    q.state.lastEventId =
      if events = [] then p.state.lastEventId else some (n + events.length - 1) := by
  induction events generalizing n p with
  | nil => cases h; rfl
  | cons event events ih =>
    obtain ⟨-, -, p', hp', hrest⟩ := replayFrom_cons_eq_ok.mp h
    rw [ih hrest]
    cases events with
    | nil => simpa using SessionProjection.apply_lastEventId hp'
    | cons _ _ =>
      simp only [List.length_cons, reduceCtorEq, if_false, Option.some.injEq]
      omega

/-- Replaying events that were read back leaves a projection that is its own reload. -/
theorem replayFrom_reload {sessionId : String} {n : Nat} {p q : SessionProjection}
    {events : List RecordedEvent} (hp : p.reload = p)
    (hevents : ∀ e ∈ events, e.event.reload = e.event)
    (h : replayFrom sessionId n p events = .ok q) : q.reload = q := by
  induction events generalizing n p with
  | nil => cases h; exact hp
  | cons event events ih =>
    obtain ⟨-, -, p', hp', hrest⟩ := replayFrom_cons_eq_ok.mp h
    have hhead := hevents event List.mem_cons_self
    refine ih (SessionProjection.apply_reload_eq hp hhead hp') (fun e he => ?_) hrest
    exact hevents e (List.mem_cons_of_mem _ he)

theorem project_eq_ok {sessionId : String} {events : List RecordedEvent} {p : SessionProjection} :
    project sessionId events = .ok p ↔
      events ≠ [] ∧ replayFrom sessionId 1 (.new sessionId) events = .ok p := by
  simp only [project, Except.bind_eq_ok, Except.ite_error_eq_ok, Except.ok.injEq]
  constructor
  · rintro ⟨q, hq, hne, rfl⟩
    exact ⟨hne, hq⟩
  · rintro ⟨hne, hp⟩
    exact ⟨p, hp, hne, rfl⟩

/-- What every event preserves that comes next, the projection of a log satisfies. -/
theorem project_preserves {I : SessionProjection → Prop} {sessionId : String}
    {events : List RecordedEvent} {q : SessionProjection} (hnew : I (.new sessionId))
    (hI : ∀ {p q : SessionProjection} {event},
      p.apply (p.state.lastEventId.getD 0 + 1) event = .ok q → I p → I q)
    (h : project sessionId events = .ok q) : I q := by
  have hreplay : ∀ (events : List RecordedEvent) (n : Nat) (p : SessionProjection),
      n = p.state.lastEventId.getD 0 + 1 → I p → replayFrom sessionId n p events = .ok q → I q := by
    intro events
    induction events with
    | nil =>
      intro n p _ hp h
      cases h
      exact hp
    | cons event events ih =>
      intro n p hn hp h
      obtain ⟨-, -, p', happly, hrest⟩ := replayFrom_cons_eq_ok.mp h
      have hlast := SessionProjection.apply_lastEventId happly
      refine ih (n + 1) p' ?_ ?_ hrest
      · rw [hlast]
        rfl
      · subst hn
        exact hI happly hp
  exact hreplay events 1 (.new sessionId) rfl hnew (project_eq_ok.mp h).2

/-- A replayed log ends at the id that is its length. -/
theorem project_lastEventId {sessionId : String} {events : List RecordedEvent}
    {p : SessionProjection} (h : project sessionId events = .ok p) :
    p.state.lastEventId = some events.length := by
  obtain ⟨hne, hreplay⟩ := project_eq_ok.mp h
  rw [replayFrom_lastEventId hreplay, if_neg hne]
  congr 1
  omega

/-- One more event at the end of a replayed log. -/
theorem project_snoc {sessionId : String} {events : List RecordedEvent} {p q : SessionProjection}
    {event : RecordedEvent} (h : project sessionId events = .ok p)
    (hid : event.id = events.length + 1) (hversion : event.schemaVersion = eventSchemaVersion)
    (happly : p.apply event.id event.event = .ok q) :
    project sessionId (events ++ [event]) = .ok q := by
  obtain ⟨-, hreplay⟩ := project_eq_ok.mp h
  refine project_eq_ok.mpr ⟨by simp, ?_⟩
  rw [replayFrom_append, hreplay]
  refine replayFrom_cons_eq_ok.mpr ⟨?_, hversion, q, ?_, rfl⟩
  · omega
  · rw [Nat.add_comm 1, ← hid]
    exact happly

/-! ## Dense ids -/

namespace StoredSession

variable {s s' : StoredSession} {sessionId : String} {now : Nat → String}
  {p q : SessionProjection} {event : SemanticEvent} {events : List SemanticEvent}
  {record : RecordedEvent} {records : List RecordedEvent}

/-- The events have ids `1 … n` in the current schema, and the row names the last of them. -/
structure Dense (s : StoredSession) : Prop where
  keys : s.events.keys = List.range' 1 s.summary.lastEventId
  version : ∀ row ∈ s.events.entries, row.2.schemaVersion = eventSchemaVersion

/-- The row of an event as it is stored. -/
def rowOf (now : Nat → String) (eventId : Nat) (event : SemanticEvent) :
    Nat × EventRow :=
  (eventId, {
    schemaVersion := eventSchemaVersion, event := event.reload, occurredAt := now eventId
    decoded := event.reload_reload })

/-- The record that `append_events` returns for an event. -/
def returnedOf (sessionId : String) (now : Nat → String) (eventId : Nat)
    (event : SemanticEvent) : RecordedEvent where
  id := eventId
  sessionId := sessionId
  schemaVersion := eventSchemaVersion
  occurredAt := now eventId
  event := event

theorem Dense.key_le (h : s.Dense) : ∀ row ∈ s.events.entries, row.1 ≤ s.summary.lastEventId := by
  intro row hrow
  have hkey : row.1 ∈ s.events.keys := List.mem_map_of_mem hrow
  rw [h.keys, List.mem_range'_1] at hkey
  omega

theorem Dense.length (h : s.Dense) : s.events.entries.length = s.summary.lastEventId := by
  have hlen := congrArg List.length h.keys
  simpa [SortedMap.keys] using hlen

theorem Dense.insert_entries (h : s.Dense) (now : Nat → String) (event : SemanticEvent) :
    (s.events.insert (s.summary.lastEventId + 1)
        (rowOf now (s.summary.lastEventId + 1) event).2).entries =
      s.events.entries ++ [rowOf now (s.summary.lastEventId + 1) event] :=
  SortedMap.entries_insert_of_forall_lt fun row hrow => Nat.lt_succ_of_le (h.key_le row hrow)

/-- One appended event, from any projection that accepts it. -/
theorem Dense.appendOne (h : s.Dense)
    (happ : s.appendOne sessionId now p event = .ok (s', q, record)) :
    s'.Dense ∧ p.apply (s.summary.lastEventId + 1) event = .ok q ∧
      s'.events.entries = s.events.entries ++ [rowOf now (s.summary.lastEventId + 1) event] ∧
      s'.summary = { s.summary with
        phase := q.state.phase, revision := q.state.revision
        lastEventId := s.summary.lastEventId + 1, updatedAt := now (s.summary.lastEventId + 1) } ∧
      record = returnedOf sessionId now (s.summary.lastEventId + 1) event := by
  simp only [StoredSession.appendOne, Except.bind_eq_ok, Except.mapError_eq_ok, insertEventRow,
    Except.ite_error_eq_ok, Except.ok.injEq, Prod.mk.injEq] at happ
  obtain ⟨q', happly, s₁, ⟨-, rfl⟩, rfl, rfl, rfl⟩ := happ
  have hentries := h.insert_entries now event
  refine ⟨⟨?_, ?_⟩, happly, hentries, rfl, rfl⟩
  · change ((s.events.insert _ (rowOf now _ event).2).entries).map Prod.fst = _
    have hkeys : s.events.entries.map Prod.fst = List.range' 1 s.summary.lastEventId := h.keys
    rw [hentries, List.map_append, hkeys, List.range'_concat]
    simp [rowOf, Nat.add_comm]
  · intro row hrow
    rcases List.mem_append.mp (hentries ▸ hrow :) with hrow | hrow
    · exact h.version row hrow
    · rw [List.mem_singleton.mp hrow]
      rfl

theorem appendAll_cons_eq_ok {out : StoredSession × SessionProjection × List RecordedEvent} :
    appendAll sessionId now s p (event :: events) = .ok out ↔
      ∃ s₁ p₁ record records, s.appendOne sessionId now p event = .ok (s₁, p₁, record) ∧
        appendAll sessionId now s₁ p₁ events = .ok (out.1, out.2.1, records) ∧
        out.2.2 = record :: records := by
  obtain ⟨s', q, out⟩ := out
  simp only [appendAll, Except.bind_eq_ok, Except.map_eq_ok, Prod.exists, Prod.mk.injEq]
  constructor
  · rintro ⟨s₁, p₁, record, hone, _, _, records, hall, rfl, rfl, rfl⟩
    exact ⟨s₁, p₁, record, records, hone, hall, rfl⟩
  · rintro ⟨s₁, p₁, record, records, hone, hall, rfl⟩
    exact ⟨s₁, p₁, record, hone, _, _, records, hall, rfl, rfl, rfl⟩

/-- Appending keeps ids dense and adds the events at the end of the log, whatever projection it
started from. -/
theorem Dense.appendAll (h : s.Dense)
    (happ : StoredSession.appendAll sessionId now s p events = .ok (s', q, records)) :
    s'.Dense ∧ s'.summary.lastEventId = s.summary.lastEventId + events.length ∧
      s'.events.entries = s.events.entries ++
        (events.zipIdx (s.summary.lastEventId + 1)).map (fun e => rowOf now e.2 e.1) ∧
      records = (events.zipIdx (s.summary.lastEventId + 1)).map
        (fun e => returnedOf sessionId now e.2 e.1) := by
  induction events generalizing s p records with
  | nil =>
    simp only [StoredSession.appendAll, Except.ok.injEq, Prod.mk.injEq] at happ
    obtain ⟨rfl, rfl, rfl⟩ := happ
    exact ⟨h, rfl, by simp, rfl⟩
  | cons event events ih =>
    obtain ⟨s₁, p₁, record, records', hone, hall, hrecords⟩ := appendAll_cons_eq_ok.mp happ
    obtain ⟨hdense, -, hentries, hsummary, hrecord⟩ := h.appendOne hone
    obtain ⟨hdense', hlast', hentries', hrecords'⟩ := ih hdense hall
    have hlast : s₁.summary.lastEventId = s.summary.lastEventId + 1 := by rw [hsummary]
    simp only at hrecords
    rw [hlast] at hlast' hentries' hrecords'
    refine ⟨hdense', ?_, ?_, ?_⟩
    · rw [hlast', List.length_cons]
      omega
    · rw [hentries', hentries]
      simp [List.zipIdx_cons]
    · rw [hrecords, hrecord, hrecords']
      simp [List.zipIdx_cons]

/-! ## Coherence -/

/-- The log replays to `p`, and the row agrees with it. -/
structure Coherent (s : StoredSession) (sessionId : String) (p : SessionProjection) : Prop where
  projected : s.projected sessionId = .ok p
  phase : s.summary.phase = p.state.phase
  revision : s.summary.revision = p.state.revision
  lastEventId : p.state.lastEventId = some s.summary.lastEventId

theorem projected_eq_ok :
    s.projected sessionId = .ok p ↔
      (∀ row ∈ s.events.entries, row.2.schemaVersion = eventSchemaVersion) ∧
        project sessionId (s.events.entries.map (recordOf sessionId)) = .ok p := by
  simp only [StoredSession.projected, StoredSession.recorded, Except.bind_eq_ok,
    recordedFromRows_eq_ok]
  constructor
  · rintro ⟨_, ⟨hversion, rfl⟩, hproject⟩
    exact ⟨hversion, hproject⟩
  · rintro ⟨hversion, hproject⟩
    exact ⟨_, ⟨hversion, rfl⟩, hproject⟩

/-- A session whose row agrees with its log has dense ids. -/
theorem Coherent.dense (h : s.Coherent sessionId p) : s.Dense := by
  obtain ⟨hversion, hproject⟩ := projected_eq_ok.mp h.projected
  refine ⟨?_, hversion⟩
  have hlast := project_lastEventId hproject
  rw [h.lastEventId, Option.some.injEq, List.length_map] at hlast
  have hids := replayFrom_ids (project_eq_ok.mp hproject).2
  rw [List.map_map, List.length_map] at hids
  rw [hlast]
  exact hids

/-- The projection of a log is its own reload. -/
theorem Coherent.reload_eq (h : s.Coherent sessionId p) : p.reload = p := by
  obtain ⟨-, hproject⟩ := projected_eq_ok.mp h.projected
  refine replayFrom_reload rfl ?_ (project_eq_ok.mp hproject).2
  simp only [List.mem_map, forall_exists_index, and_imp]
  rintro _ row - rfl
  exact row.2.decoded

theorem Coherent.unique (h : s.Coherent sessionId p) (h' : s.Coherent sessionId q) : p = q :=
  Except.ok.inj (h.projected.symm.trans h'.projected)

/-- One event appended from a projection of the log. -/
theorem Coherent.appendOne (h : s.Coherent sessionId p.reload)
    (happ : s.appendOne sessionId now p event = .ok (s', q, record)) :
    s'.Coherent sessionId q.reload := by
  obtain ⟨hdense, happly, hentries, hsummary, -⟩ := h.dense.appendOne happ
  obtain ⟨-, hproject⟩ := projected_eq_ok.mp h.projected
  refine ⟨projected_eq_ok.mpr ⟨hdense.version, ?_⟩, ?_, ?_, ?_⟩
  · rw [hentries, List.map_append]
    refine project_snoc hproject ?_ rfl (SessionProjection.apply_reload happly)
    simp [recordOf, rowOf, h.dense.length]
  · rw [hsummary]; rfl
  · rw [hsummary]; rfl
  · rw [SessionProjection.reload_state, SessionProjection.apply_lastEventId happly, hsummary]

/-- **Appending from a projection of the log keeps row and log in agreement.** -/
theorem Coherent.appendAll (h : s.Coherent sessionId p.reload)
    (happ : StoredSession.appendAll sessionId now s p events = .ok (s', q, records)) :
    s'.Coherent sessionId q.reload := by
  induction events generalizing s p records with
  | nil =>
    simp only [StoredSession.appendAll, Except.ok.injEq, Prod.mk.injEq] at happ
    obtain ⟨rfl, rfl, -⟩ := happ
    exact h
  | cons event events ih =>
    obtain ⟨s₁, p₁, record, records', hone, hall, -⟩ := appendAll_cons_eq_ok.mp happ
    exact ih (h.appendOne hone) hall

/-! ## Projections of a prefix -/

/-- The projection of a prefix of the log, up to reloading. -/
def HasPrefix (s : StoredSession) (sessionId : String) (p : SessionProjection) : Prop :=
  ∃ k ≤ s.summary.lastEventId,
    project sessionId ((s.events.entries.take k).map (recordOf sessionId)) = .ok p.reload

/-- The projection has seen the last event of the row. -/
def Current (s : StoredSession) (p : SessionProjection) : Prop :=
  p.state.lastEventId = some s.summary.lastEventId

instance (s : StoredSession) (p : SessionProjection) : Decidable (s.Current p) :=
  inferInstanceAs (Decidable (_ = _))

theorem Coherent.hasPrefix (h : s.Coherent sessionId p.reload) : s.HasPrefix sessionId p := by
  refine ⟨s.summary.lastEventId, le_refl _, ?_⟩
  rw [← h.dense.length, List.take_length]
  exact (projected_eq_ok.mp h.projected).2

/-- A projection of a prefix that has seen the last event is that of the log. -/
theorem Coherent.eq_of_current (h : s.Coherent sessionId q) (hp : s.HasPrefix sessionId p)
    (hcurrent : s.Current p) : p.reload = q := by
  obtain ⟨k, hk, hproject⟩ := hp
  have hlast := project_lastEventId hproject
  rw [SessionProjection.reload_state, show _ = _ from hcurrent, Option.some.injEq,
    List.length_map, List.length_take, h.dense.length] at hlast
  rw [show k = s.events.entries.length by rw [h.dense.length]; omega, List.take_length] at hproject
  exact Except.ok.inj (hproject.symm.trans (projected_eq_ok.mp h.projected).2)

/-- A prefix of the log stays one when the log grows. -/
theorem HasPrefix.extend (hp : s.HasPrefix sessionId p) (h : s.Dense)
    {rows : List (Nat × EventRow)} (hentries : s'.events.entries = s.events.entries ++ rows)
    (hle : s.summary.lastEventId ≤ s'.summary.lastEventId) : s'.HasPrefix sessionId p := by
  obtain ⟨k, hk, hproject⟩ := hp
  refine ⟨k, hk.trans hle, ?_⟩
  rwa [hentries, List.take_append_of_le_length (by rw [h.length]; exact hk)]

theorem filter_lt_drop {rows : List (Nat × EventRow)} {n : Nat}
    (h : rows.map Prod.fst = List.range' (n + 1) rows.length) (after : Nat) :
    rows.filter (fun row => after < row.1) = rows.drop (after - n) := by
  induction rows generalizing n with
  | nil => simp
  | cons row rows ih =>
    simp only [List.map_cons, List.length_cons, List.range'_succ, List.cons.injEq] at h
    obtain ⟨hkey, htail⟩ := h
    by_cases hlt : after < row.1
    · have hzero : after - n = 0 := by omega
      have hnext : after - (n + 1) = 0 := by omega
      rw [List.filter_cons_of_pos (by simpa using hlt), ih htail, hzero, hnext]
      rfl
    · have hsucc : after - n = (after - (n + 1)) + 1 := by omega
      rw [List.filter_cons_of_neg (by simpa using hlt), ih htail, hsucc, List.drop_succ_cons]

/-- With dense ids, the events after an id are what remains after that many. -/
theorem Dense.eventsAfter (h : s.Dense) (after : Nat) :
    s.eventsAfter after = s.events.entries.drop after := by
  have hkeys : s.events.entries.map Prod.fst = List.range' (0 + 1) s.events.entries.length := by
    rw [h.length]
    exact h.keys
  exact filter_lt_drop hkeys after

/-- A read without limit. -/
theorem Dense.readEvents (h : s.Dense) (sessionId : String) (after : Nat) :
    s.readEvents sessionId after u32Max =
      if i64Max < after then .error .invalidCursor
      else .ok ((s.events.entries.map (recordOf sessionId)).drop after) := by
  rw [StoredSession.readEvents, if_pos rfl, h.eventsAfter, ← List.map_drop]
  congr 1
  exact recordedFromRows_eq_ok.mpr ⟨fun row hrow => h.version row (List.mem_of_mem_drop hrow), rfl⟩

end StoredSession

/-! ## A new session -/

/-- A session right after its creation. -/
def createdSession : StoredSession where
  summary := {
    id := "s", title := none, projectId := none, parentSessionId := none
    forkedAtEventId := none, createdAt := "t0", updatedAt := "t0", phase := .created
    revision := 0, lastEventId := 1, historyRetention := .forever }
  events := (∅ : SortedMap Nat EventRow).insert 1
    { schemaVersion := 1, event := .sessionCreated none, occurredAt := "t0", decoded := rfl }

/-- The projection of a session right after its creation. -/
def createdProjection : SessionProjection :=
  { SessionProjection.new "s" with state := { SessionState.new "s" with lastEventId := some 1 } }

theorem createdSession_coherent : createdSession.Coherent "s" createdProjection where
  projected := rfl
  phase := rfl
  revision := rfl
  lastEventId := rfl

end Piqo
