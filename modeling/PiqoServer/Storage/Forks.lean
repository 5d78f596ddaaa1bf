import PiqoServer.Storage.Columns
import PiqoServer.Storage.Sequential

/-!
# Forks

`fork_session` copies the rows of a session up to an event as they are, columns unread, and
projects what they decode to. Behind the copy it appends the events of the branch: the fork, the
interruption of a run that was running at the cut, and the pause of the queue.

## Main definitions

* `RawSession`, `RawDatabase`: the rows of sessions with their columns
* `RawSession.projected`: the projection of the rows of a session
* `RawDatabase.forkSession`: the transaction of `fork_session`
* `SessionProjection.AtMostOneRunning`: at most one run is running

## Main results

* `appendBranch_ok`: the rows a branch appends
* `applyLog_branchEvents`: the branch of a prefix replays, and stops what was running
* `forkSession_faithful`: a fork is a faithful, paused prefix
-/

namespace Piqo

/-! ## Rows with their columns -/

/-- The rows of one session. -/
structure RawSession where
  summary : SessionSummary
  events : SortedMap Nat EventColumns
  deriving DecidableEq

structure RawDatabase where
  sessions : SortedMap String RawSession
  deriving DecidableEq

/-- The records of some rows. -/
def recordedColumns (fromStr : String → Option Json) (sessionId : String) :
    List (Nat × EventColumns) → Except StoreError (List RecordedEvent)
  | [] => .ok []
  | (eventId, columns) :: rows =>
    (columns.recorded fromStr sessionId eventId).bind fun stored =>
      (recordedColumns fromStr sessionId rows).map (stored.record :: ·)

namespace RawSession

/-- The projection of some rows under a session id. -/
def projectedRows (fromStr : String → Option Json) (sessionId : String)
    (rows : List (Nat × EventColumns)) : Except StoreError SessionProjection :=
  (recordedColumns fromStr sessionId rows).bind (project sessionId)

/-- The projection of the rows of a session. -/
def projected (fromStr : String → Option Json) (sessionId : String) (s : RawSession) :
    Except StoreError SessionProjection :=
  projectedRows fromStr sessionId s.events.entries

/-- The rows up to an event. -/
def rowsTo (s : RawSession) (eventId : Nat) : List (Nat × EventColumns) :=
  s.events.entries.filter fun row => row.1 ≤ eventId

/-- The primary key of `events`, and the trigger on its ids. -/
def insertEventRow (s : RawSession) (sessionId : String) (eventId : Nat) (occurredAt : String)
    (event : SemanticEvent) : Except StoreError RawSession :=
  (EventColumns.ofEvent sessionId occurredAt event).bind fun columns =>
    if eventId = 0 ∨ s.events.contains eventId then .error .database
    else .ok { s with events := s.events.insert eventId columns }

/-- The branch events of a fork: ids continue from `nextId`. -/
def appendBranch (sessionId createdAt : String) :
    RawSession → SessionProjection → Nat → List SemanticEvent → Except StoreError RawSession
  | s, _, _, [] => .ok s
  | s, p, nextId, event :: events =>
    ((p.apply nextId event).mapError .invalidTransition).bind fun p =>
      (s.insertEventRow sessionId nextId createdAt event).bind fun s =>
        appendBranch sessionId createdAt
          { s with summary := { s.summary with
            phase := p.state.phase, revision := p.state.revision, lastEventId := nextId
            updatedAt := createdAt } }
          p (nextId + 1) events

end RawSession

/-- The transaction of `fork_session`; `id` and `createdAt` are drawn by the caller. -/
def RawDatabase.forkSession (fromStr : String → Option Json) (db : RawDatabase)
    (id createdAt parentSessionId : String) (atEventId : Nat) (title : Option String) :
    Except StoreError RawDatabase :=
  match db.sessions.get? parentSessionId with
  | none => .error (.sessionNotFound parentSessionId)
  | some parent =>
    if i64Max < atEventId then .error .invalidCursor
    else if (parent.rowsTo atEventId).getLast?.map Prod.fst ≠ some atEventId then
      .error (.eventNotFound parentSessionId atEventId)
    else
      (RawSession.projectedRows fromStr parentSessionId (parent.rowsTo atEventId)).bind fun p =>
        if db.sessions.contains id then .error .database
        else
          (RawSession.appendBranch id createdAt
            { summary := {
                id, title, projectId := parent.summary.projectId
                parentSessionId := some parentSessionId, forkedAtEventId := some atEventId
                createdAt, updatedAt := createdAt, phase := p.state.phase
                revision := p.state.revision, lastEventId := atEventId
                historyRetention := .forever }
              events := ⟨parent.rowsTo atEventId, parent.events.sorted.filter _⟩ }
            p (atEventId + 1) (Database.branchEvents parentSessionId atEventId p)).map fun s =>
              { db with sessions := db.sessions.insert id s }

/-! ## Reading rows -/

section Reading

variable {fromStr : String → Option Json} {sessionId : String}
  {rows : List (Nat × EventColumns)} {events : List RecordedEvent}

theorem recordedColumns_cons_eq_ok {eventId : Nat} {columns : EventColumns} :
    recordedColumns fromStr sessionId ((eventId, columns) :: rows) = .ok events ↔
      ∃ stored tail, columns.recorded fromStr sessionId eventId = .ok stored ∧
        recordedColumns fromStr sessionId rows = .ok tail ∧ events = stored.record :: tail := by
  simp only [recordedColumns, Except.bind_eq_ok, Except.map_eq_ok]
  constructor
  · rintro ⟨stored, hstored, tail, htail, rfl⟩
    exact ⟨stored, tail, hstored, htail, rfl⟩
  · rintro ⟨stored, tail, hstored, htail, rfl⟩
    exact ⟨stored, hstored, tail, htail, rfl⟩

theorem recordedColumns_append {more : List (Nat × EventColumns)} {events' : List RecordedEvent}
    (h : recordedColumns fromStr sessionId rows = .ok events)
    (h' : recordedColumns fromStr sessionId more = .ok events') :
    recordedColumns fromStr sessionId (rows ++ more) = .ok (events ++ events') := by
  induction rows generalizing events with
  | nil =>
    cases h
    exact h'
  | cons row rows ih =>
    obtain ⟨stored, tail, hstored, htail, rfl⟩ := recordedColumns_cons_eq_ok.mp h
    exact recordedColumns_cons_eq_ok.mpr ⟨stored, tail ++ events', hstored, ih htail, rfl⟩

theorem recordedColumns_take (h : recordedColumns fromStr sessionId rows = .ok events) (n : Nat) :
    recordedColumns fromStr sessionId (rows.take n) = .ok (events.take n) := by
  induction rows generalizing events n with
  | nil =>
    cases h
    simp [recordedColumns]
  | cons row rows ih =>
    obtain ⟨stored, tail, hstored, htail, rfl⟩ := recordedColumns_cons_eq_ok.mp h
    cases n with
    | zero => rfl
    | succ n => exact recordedColumns_cons_eq_ok.mpr ⟨stored, tail.take n, hstored, ih htail n, rfl⟩

/-- What is read of a row, but for the session it is read under. -/
theorem EventColumns.recorded_eq_ok {columns : EventColumns} {eventId : Nat}
    {stored : SourcedRecord} (h : columns.recorded fromStr sessionId eventId = .ok stored) :
    stored.record.id = eventId ∧ stored.record.event.reload = stored.record.event ∧
      ∀ sessionId', columns.recorded fromStr sessionId' eventId =
        .ok { stored with record := { stored.record with sessionId := sessionId' } } := by
  unfold EventColumns.recorded at h ⊢
  obtain ⟨hversion, h⟩ := Except.ite_error_eq_ok.mp h
  rw [not_not] at hversion
  simp only [hversion, ne_eq, not_true_eq_false, if_false]
  split at h
  · cases h
  · split at h
    · cases h
    · next hevent =>
      cases h
      refine ⟨rfl, SemanticEvent.reload_of_read hevent, ?_⟩
      intro sessionId'
      simp only [hversion]

/-- A record under another session id. -/
def RecordedEvent.withSession (sessionId : String) (r : RecordedEvent) : RecordedEvent :=
  { r with sessionId }

theorem recordedColumns_withSession (sessionId' : String)
    (h : recordedColumns fromStr sessionId rows = .ok events) :
    recordedColumns fromStr sessionId' rows =
      .ok (events.map (RecordedEvent.withSession sessionId')) := by
  induction rows generalizing events with
  | nil =>
    cases h
    rfl
  | cons row rows ih =>
    obtain ⟨stored, tail, hstored, htail, rfl⟩ := recordedColumns_cons_eq_ok.mp h
    obtain ⟨-, -, hother⟩ := EventColumns.recorded_eq_ok hstored
    exact recordedColumns_cons_eq_ok.mpr ⟨_, _, hother sessionId', ih htail, rfl⟩

theorem recordedColumns_ids (h : recordedColumns fromStr sessionId rows = .ok events) :
    events.map (·.id) = rows.map Prod.fst := by
  induction rows generalizing events with
  | nil =>
    cases h
    rfl
  | cons row rows ih =>
    obtain ⟨stored, tail, hstored, htail, rfl⟩ := recordedColumns_cons_eq_ok.mp h
    rw [List.map_cons, List.map_cons, ih htail, (EventColumns.recorded_eq_ok hstored).1]

theorem recordedColumns_reload (h : recordedColumns fromStr sessionId rows = .ok events) :
    ∀ r ∈ events, r.event.reload = r.event := by
  induction rows generalizing events with
  | nil =>
    cases h
    simp
  | cons row rows ih =>
    obtain ⟨stored, tail, hstored, htail, rfl⟩ := recordedColumns_cons_eq_ok.mp h
    exact List.forall_mem_cons.mpr ⟨(EventColumns.recorded_eq_ok hstored).2.1, ih htail⟩

/-- The records of stored events. -/
def recordsOf (sessionId occurredAt : String) (log : List (Nat × SemanticEvent)) :
    List RecordedEvent :=
  log.map fun entry => {
    id := entry.1, sessionId, schemaVersion := eventSchemaVersion, occurredAt
    event := entry.2.reload }

/-- The rows of some events, as they are written and read. -/
theorem recordedColumns_columnsOf {log : List (Nat × SemanticEvent)} (createdAt : String)
    (hlog : ∀ entry ∈ log, entry.2.Sized ∧ ReadsText fromStr entry.2) :
    recordedColumns fromStr sessionId
        (log.map fun entry => (entry.1, columnsOf createdAt entry.2)) =
      .ok (recordsOf sessionId createdAt log) := by
  induction log with
  | nil => rfl
  | cons entry log ih =>
    obtain ⟨⟨hsized, htext⟩, hrest⟩ := List.forall_mem_cons.mp hlog
    exact recordedColumns_cons_eq_ok.mpr
      ⟨_, _, recorded_columnsOf hsized htext sessionId createdAt entry.1, ih hrest, rfl⟩

end Reading

/-! ## Replaying under another id -/

theorem replayFrom_withSession {sessionId : String} (sessionId' : String) {n : Nat}
    {p q : SessionProjection} {events : List RecordedEvent}
    (h : replayFrom sessionId n p events = .ok q) :
    replayFrom sessionId' n (p.rename sessionId')
      (events.map (RecordedEvent.withSession sessionId')) = .ok (q.rename sessionId') := by
  induction events generalizing n p with
  | nil =>
    cases h
    rfl
  | cons event events ih =>
    obtain ⟨hid, hversion, p', hp', hrest⟩ := replayFrom_cons_eq_ok.mp h
    exact replayFrom_cons_eq_ok.mpr
      ⟨hid, hversion, _, SessionProjection.apply_rename sessionId' hp', ih hrest⟩

/-- A prefix of a log that replays replays. -/
theorem project_take {sessionId : String} {events : List RecordedEvent} {p : SessionProjection}
    (h : project sessionId events = .ok p) {n : Nat} (hn : 0 < n) :
    ∃ q, project sessionId (events.take n) = .ok q := by
  obtain ⟨hne, hreplay⟩ := project_eq_ok.mp h
  rw [← List.take_append_drop n events, replayFrom_append, Except.bind_eq_ok] at hreplay
  obtain ⟨q, hq, -⟩ := hreplay
  refine ⟨q, project_eq_ok.mpr ⟨?_, hq⟩⟩
  cases events with
  | nil => exact absurd rfl hne
  | cons event events =>
    obtain ⟨m, rfl⟩ := Nat.exists_eq_succ_of_ne_zero hn.ne'
    simp

/-- Events under consecutive ids. -/
def numbered (first : Nat) (events : List SemanticEvent) : List (Nat × SemanticEvent) :=
  (events.zipIdx first).map Prod.swap

theorem numbered_cons (first : Nat) (event : SemanticEvent) (events : List SemanticEvent) :
    numbered first (event :: events) = (first, event) :: numbered (first + 1) events := rfl

theorem numbered_length (first : Nat) (events : List SemanticEvent) :
    (numbered first events).length = events.length := by
  simp [numbered]

/-- Replaying events that were stored and read back under consecutive ids. -/
theorem replayFrom_numbered (sessionId createdAt : String) {first : Nat}
    {events : List SemanticEvent} {p q : SessionProjection} (hp : p.reload = p)
    (hplain : ∀ event ∈ events, event.reload = event)
    (h : p.applyLog (numbered first events) = .ok q) :
    replayFrom sessionId first (p.rename sessionId)
      (recordsOf sessionId createdAt (numbered first events)) = .ok (q.rename sessionId) := by
  induction events generalizing first p with
  | nil =>
    cases h
    rfl
  | cons event events ih =>
    rw [numbered_cons] at h ⊢
    obtain ⟨p', happly, hrest⟩ := SessionProjection.applyLog_cons_eq_ok.mp h
    obtain ⟨hevent, hevents⟩ := List.forall_mem_cons.mp hplain
    have hp' := SessionProjection.apply_reload_eq hp hevent happly
    refine replayFrom_cons_eq_ok.mpr ⟨rfl, rfl, _, ?_, ih hp' hevents hrest⟩
    dsimp only
    rw [hevent]
    exact SessionProjection.apply_rename sessionId happly

/-! ## The branch -/

/-- The rows a branch appends, and the row of the session behind them. -/
theorem appendBranch_ok (sessionId createdAt : String) {events : List SemanticEvent}
    {s : RawSession} {p q : SessionProjection} {first : Nat} (hfirst : 0 < first)
    (hkeys : ∀ row ∈ s.events.entries, row.1 < first)
    (hrow : s.summary.phase = p.state.phase ∧ s.summary.revision = p.state.revision ∧
      s.summary.lastEventId + 1 = first)
    (h : p.applyLog (numbered first events) = .ok q) :
    ∃ s', RawSession.appendBranch sessionId createdAt s p first events = .ok s' ∧
      s'.events.entries = s.events.entries ++
        (numbered first events).map (fun entry => (entry.1, columnsOf createdAt entry.2)) ∧
      s'.summary.phase = q.state.phase ∧ s'.summary.revision = q.state.revision ∧
      s'.summary.lastEventId + 1 = first + events.length := by
  induction events generalizing s p first with
  | nil =>
    cases h
    exact ⟨s, rfl, by simp [numbered], hrow⟩
  | cons event events ih =>
    rw [numbered_cons] at h ⊢
    obtain ⟨p', happly, hrest⟩ := SessionProjection.applyLog_cons_eq_ok.mp h
    have hentries : (s.events.insert first (columnsOf createdAt event)).entries =
        s.events.entries ++ [(first, columnsOf createdAt event)] :=
      SortedMap.entries_insert_of_forall_lt hkeys
    have hfree : s.events.contains first = false := by
      rw [SortedMap.contains_eq_false_iff]
      cases hget : s.events.get? first with
      | none => rfl
      | some columns =>
        have hlt := hkeys _ ((SortedMap.get?_eq_some_iff _).mp hget)
        exact absurd hlt (Nat.lt_irrefl _)
    have hinsert : s.insertEventRow sessionId first createdAt event =
        .ok { s with events := s.events.insert first (columnsOf createdAt event) } := by
      have hno : ¬(first = 0 ∨ s.events.contains first = true) := by
        rw [hfree]
        rintro (hzero | hcontains)
        · omega
        · cases hcontains
      rw [RawSession.insertEventRow, EventColumns.ofEvent_eq, Except.bind, if_neg hno]
    obtain ⟨s', hs', hrows, hphase, hrevision, hlast⟩ := ih (s := {
        summary := { s.summary with
          phase := p'.state.phase, revision := p'.state.revision, lastEventId := first
          updatedAt := createdAt }
        events := s.events.insert first (columnsOf createdAt event) }) (Nat.succ_pos _) (by
      intro row hmem
      rw [hentries] at hmem
      rcases List.mem_append.mp hmem with hmem | hmem
      · exact Nat.lt_succ_of_lt (hkeys row hmem)
      · rw [List.mem_singleton.mp hmem]
        exact Nat.lt_succ_self _) ⟨rfl, rfl, rfl⟩ hrest
    refine ⟨s', ?_, ?_, hphase, hrevision, ?_⟩
    · rw [RawSession.appendBranch, happly]
      simp only [Except.mapError, Except.bind, hinsert]
      exact hs'
    · rw [hrows, hentries, List.append_assoc]
      rfl
    · have hend : s'.summary.lastEventId + 1 = first + 1 + events.length := hlast
      rw [hend, List.length_cons]
      omega

namespace SessionProjection

/-- At most one run is running. -/
def AtMostOneRunning (p : SessionProjection) : Prop :=
  ∀ runId run runId' run', p.runs.get? runId = some run → run.status = .running →
    p.runs.get? runId' = some run' → run'.status = .running → runId = runId'

/-- The running run of a projection, under its own id. -/
theorem get?_of_activeRun {p : SessionProjection} {run : RunProjection} (hkeyed : p.WellKeyed)
    (h : p.activeRun = some run) :
    p.runs.get? run.runId = some run ∧ run.status = .running := by
  obtain ⟨runId, hrun⟩ := (SortedMap.mem_values_iff _).mp (List.mem_of_find?_eq_some h)
  rw [hkeyed.run hrun]
  exact ⟨hrun, by simpa using List.find?_some h⟩

theorem not_running_of_activeRun {p : SessionProjection} (h : p.activeRun = none) {runId : String}
    {run : RunProjection} (hrun : p.runs.get? runId = some run) : run.status ≠ .running := by
  have hmem := (SortedMap.mem_values_iff p.runs).mpr ⟨runId, hrun⟩
  simpa using List.find?_eq_none.mp h run hmem

/-- The branch of a prefix replays: nothing is running behind it, and the queue is paused. -/
theorem applyLog_branchEvents {p : SessionProjection} (hkeyed : p.WellKeyed)
    (hone : p.AtMostOneRunning) (parentSessionId : String) (atEventId : Nat) :
    ∃ q, p.applyLog (numbered (atEventId + 1)
        (Database.branchEvents parentSessionId atEventId p)) = .ok q ∧
      q.state.phase = .interrupted ∧ q.queuePaused = true ∧
      ∀ runId run, q.runs.get? runId = some run → run.status ≠ .running := by
  unfold Database.branchEvents
  cases hactive : p.activeRun with
  | none => exact ⟨_, rfl, rfl, rfl, fun _ _ hrun => not_running_of_activeRun hactive hrun⟩
  | some run =>
    obtain ⟨hrun, hrunning⟩ := get?_of_activeRun hkeyed hactive
    have hinterrupt : ({ p with
        state := { p.state with
          phase := .interrupted, revision := p.state.revision + 1
          lastEventId := some (atEventId + 1) }
        queuePaused := true } : SessionProjection).apply (atEventId + 2)
          (.runInterrupted run.runId "forked_branch") = .ok { p with
        state := { p.state with
          phase := .interrupted, revision := p.state.revision + 1
          lastEventId := some (atEventId + 2) }
        runs := p.runs.insert run.runId
          { run with status := .interrupted, error := some "forked_branch" }
        queuePaused := true } := by
      refine apply_eq_ok.mpr ⟨_, rfl, ?_⟩
      refine Except.map_eq_ok.mpr ⟨_, setRunTerminal_eq_ok.mpr ⟨run, hrun, ?_, rfl⟩, rfl⟩
      rw [hrunning]
      rfl
    refine ⟨_, applyLog_cons_eq_ok.mpr ⟨_, rfl, applyLog_cons_eq_ok.mpr ⟨_, hinterrupt, rfl⟩⟩,
      rfl, rfl, ?_⟩
    intro runId run' hrun' hrunning'
    have hget : (p.runs.insert run.runId
        { run with status := .interrupted, error := some "forked_branch" }).get? runId =
          some run' := hrun'
    rw [SortedMap.get?_insert] at hget
    split at hget
    · cases hget
      cases hrunning'
    · next hne => exact hne (hone _ _ _ _ hget hrunning' hrun hrunning)

end SessionProjection

theorem mem_branchEvents {parentSessionId : String} {atEventId : Nat} {p : SessionProjection}
    {event : SemanticEvent} (h : event ∈ Database.branchEvents parentSessionId atEventId p) :
    event = .sessionForked parentSessionId atEventId ∨
      (∃ runId, event = .runInterrupted runId "forked_branch") ∨ event = .queuePaused := by
  simp only [Database.branchEvents, List.append_assoc, List.mem_append, List.mem_singleton] at h
  rcases h with h | h | h
  · exact .inl h
  · cases hactive : p.activeRun with
    | none =>
      rw [hactive] at h
      cases h
    | some run =>
      rw [hactive] at h
      exact .inr (.inl ⟨run.runId, List.mem_singleton.mp h⟩)
  · exact .inr (.inr h)

theorem reload_branchEvents {parentSessionId : String} {atEventId : Nat} {p : SessionProjection} :
    ∀ event ∈ Database.branchEvents parentSessionId atEventId p, event.reload = event := by
  intro event hevent
  rcases mem_branchEvents hevent with rfl | ⟨runId, rfl⟩ | rfl <;> rfl

theorem sized_branchEvents {parentSessionId : String} {atEventId : Nat} {p : SessionProjection}
    (hid : atEventId ≤ i64Max) :
    ∀ event ∈ Database.branchEvents parentSessionId atEventId p, event.Sized := by
  intro event hevent
  rcases mem_branchEvents hevent with rfl | ⟨runId, rfl⟩ | rfl
  · exact lt_of_le_of_lt hid (by decide)
  · trivial
  · trivial

theorem mem_numbered {first : Nat} {events : List SemanticEvent} {entry : Nat × SemanticEvent}
    (h : entry ∈ numbered first events) : entry.2 ∈ events := by
  obtain ⟨pair, hpair, rfl⟩ := List.mem_map.mp h
  have hget := (List.mem_zipIdx hpair).2.2
  change pair.1 ∈ events
  rw [hget]
  exact List.getElem_mem _

/-! ## Forking -/

section Forking

variable {fromStr : String → Option Json} {parent : RawSession} {parentSessionId : String}
  {P : SessionProjection} {atEventId : Nat}

/-- The rows of a session that replays have the ids `1 … n`. -/
theorem keys_of_projected (h : parent.projected fromStr parentSessionId = .ok P) :
    parent.events.entries.map Prod.fst = List.range' 1 parent.events.entries.length := by
  obtain ⟨events, hevents, hproject⟩ := Except.bind_eq_ok.mp h
  have hids := replayFrom_ids (project_eq_ok.mp hproject).2
  have hrows := recordedColumns_ids hevents
  have hlength : events.length = parent.events.entries.length := by
    simpa using congrArg List.length hrows
  rw [← hrows, hids, hlength]

/-- The rows up to an id are the first ones. -/
theorem rowsTo_eq_take (h : parent.projected fromStr parentSessionId = .ok P) :
    parent.rowsTo atEventId = parent.events.entries.take atEventId := by
  have htake : ∀ (rows : List (Nat × EventColumns)) (n m : Nat),
      rows.map Prod.fst = List.range' (n + 1) rows.length →
        rows.filter (fun row => decide (row.1 ≤ n + m)) = rows.take m := by
    intro rows
    induction rows with
    | nil =>
      intro n m _
      simp
    | cons row rows ih =>
      intro n m hkeys
      rw [List.length_cons, List.range'_succ, List.map_cons, List.cons.injEq] at hkeys
      obtain ⟨hrow, hrows⟩ := hkeys
      have hrest := ih (n + 1)
      cases m with
      | zero =>
        refine List.filter_eq_nil_iff.mpr ?_
        intro entry hentry
        have hkey : entry.1 ∈ (row :: rows).map Prod.fst := List.mem_map_of_mem hentry
        rw [List.map_cons, hrow, hrows, ← List.range'_succ, List.mem_range'_1] at hkey
        simp only [decide_eq_true_eq]
        omega
      | succ m =>
        rw [List.filter_cons_of_pos (by simp only [hrow, decide_eq_true_eq]; omega),
          List.take_succ_cons, ← hrest m hrows]
        congr 1
        refine List.filter_congr ?_
        intro entry _
        rw [decide_eq_decide]
        omega
  have hrows := htake parent.events.entries 0 atEventId (keys_of_projected h)
  rw [Nat.zero_add] at hrows
  exact hrows

theorem contains_iff_of_projected (h : parent.projected fromStr parentSessionId = .ok P) :
    parent.events.contains atEventId = true ↔
      0 < atEventId ∧ atEventId ≤ parent.events.entries.length := by
  have hmem : parent.events.contains atEventId = true ↔
      atEventId ∈ parent.events.entries.map Prod.fst := by
    rw [SortedMap.contains_iff]
    exact (SortedMap.mem_keys_iff _).symm
  rw [hmem, keys_of_projected h, List.mem_range'_1]
  omega

/-- The last row up to an id has that id exactly when there is such a row. -/
theorem getLast?_rowsTo (h : parent.projected fromStr parentSessionId = .ok P) :
    (parent.rowsTo atEventId).getLast?.map Prod.fst = some atEventId ↔
      parent.events.contains atEventId = true := by
  have hkeys : (parent.rowsTo atEventId).map Prod.fst =
      List.range' 1 (min atEventId parent.events.entries.length) := by
    rw [rowsTo_eq_take h, List.map_take, keys_of_projected h]
    rcases Nat.le_total atEventId parent.events.entries.length with hle | hle
    · rw [List.take_range'_of_length_ge hle, Nat.min_eq_left hle]
    · rw [List.take_range'_of_length_le hle, Nat.min_eq_right hle]
  rw [← List.getLast?_map, hkeys, contains_iff_of_projected h, List.getLast?_range']
  split
  · simp
    omega
  · simp
    omega

/-- A fork at an event: the copied rows, the branch behind them, and what they replay to. -/
structure FaithfulFork (fromStr : String → Option Json) (id createdAt parentSessionId : String)
    (atEventId : Nat) (p : SessionProjection) (parent child : RawSession) : Prop where
  rows : child.events.entries = parent.rowsTo atEventId ++
    (numbered (atEventId + 1) (Database.branchEvents parentSessionId atEventId p)).map
      fun entry => (entry.1, columnsOf createdAt entry.2)
  replays : ∃ q, child.projected fromStr id = .ok q ∧ q.state.phase = .interrupted ∧
    q.queuePaused = true ∧
    (∀ runId run, q.runs.get? runId = some run → run.status ≠ .running) ∧
    Database.matchesRow child.summary q = true

/-- The prefix of a session that replays replays, up to an event it has. -/
theorem projectedRows_rowsTo (h : parent.projected fromStr parentSessionId = .ok P)
    (hpos : 0 < atEventId) :
    ∃ p events, recordedColumns fromStr parentSessionId (parent.rowsTo atEventId) = .ok events ∧
      project parentSessionId events = .ok p := by
  obtain ⟨events, hevents, hproject⟩ := Except.bind_eq_ok.mp h
  obtain ⟨p, hp⟩ := project_take hproject hpos
  refine ⟨p, events.take atEventId, ?_, hp⟩
  rw [rowsTo_eq_take h]
  exact recordedColumns_take hevents atEventId

/-- The rows of a fork and what they replay to, from the prefix they continue. -/
theorem FaithfulFork.of_branch {id createdAt : String} {p q : SessionProjection}
    {events : List RecordedEvent} {child : RawSession}
    (hevents : recordedColumns fromStr parentSessionId (parent.rowsTo atEventId) = .ok events)
    (hp : project parentSessionId events = .ok p) (hlength : events.length = atEventId)
    (hbranch : p.applyLog (numbered (atEventId + 1)
      (Database.branchEvents parentSessionId atEventId p)) = .ok q)
    (hphase : q.state.phase = .interrupted) (hpaused : q.queuePaused = true)
    (hrunning : ∀ runId run, q.runs.get? runId = some run → run.status ≠ .running)
    (hid : atEventId ≤ i64Max)
    (htext : ∀ event ∈ Database.branchEvents parentSessionId atEventId p, ReadsText fromStr event)
    (hrows : child.events.entries = parent.rowsTo atEventId ++
      (numbered (atEventId + 1) (Database.branchEvents parentSessionId atEventId p)).map
        fun entry => (entry.1, columnsOf createdAt entry.2))
    (hrow : child.summary.phase = q.state.phase ∧ child.summary.revision = q.state.revision ∧
      child.summary.lastEventId + 1 = atEventId + 1 +
        (Database.branchEvents parentSessionId atEventId p).length) :
    FaithfulFork fromStr id createdAt parentSessionId atEventId p parent child where
  rows := hrows
  replays := by
    have hreload : p.reload = p :=
      replayFrom_reload (SessionProjection.reload_new parentSessionId)
        (recordedColumns_reload hevents) (project_eq_ok.mp hp).2
    -- the copied rows replay under the new id, and the branch behind them
    have hcopied := replayFrom_withSession id (project_eq_ok.mp hp).2
    have hreplayed := replayFrom_numbered id createdAt hreload reload_branchEvents hbranch
    have hread : recordedColumns fromStr id child.events.entries =
        .ok (events.map (RecordedEvent.withSession id) ++ recordsOf id createdAt
          (numbered (atEventId + 1) (Database.branchEvents parentSessionId atEventId p))) := by
      rw [hrows]
      exact recordedColumns_append (recordedColumns_withSession id hevents)
        (recordedColumns_columnsOf createdAt fun entry hentry =>
          ⟨sized_branchEvents hid _ (mem_numbered hentry), htext _ (mem_numbered hentry)⟩)
    have hproject : project id (events.map (RecordedEvent.withSession id) ++ recordsOf id createdAt
        (numbered (atEventId + 1) (Database.branchEvents parentSessionId atEventId p))) =
          .ok (q.rename id) := by
      refine project_eq_ok.mpr ⟨?_, ?_⟩
      · simp [Database.branchEvents, numbered, recordsOf]
      · rw [replayFrom_append, show SessionProjection.new id =
          (SessionProjection.new parentSessionId).rename id from rfl, hcopied]
        simp only [Except.bind, List.length_map, hlength, Nat.add_comm 1]
        exact hreplayed
    refine ⟨q.rename id, Except.bind_eq_ok.mpr ⟨_, hread, hproject⟩, hphase, hpaused, hrunning, ?_⟩
    obtain ⟨hrowPhase, hrowRevision, hrowLast⟩ := hrow
    have hlast := project_lastEventId hproject
    rw [List.length_append, List.length_map, hlength, recordsOf, List.length_map,
      numbered_length] at hlast
    simp only [Database.matchesRow, hlast, Option.getD_some, Bool.and_eq_true, decide_eq_true_eq]
    refine ⟨⟨hrowPhase.symm, hrowRevision.symm⟩, ?_⟩
    omega

/-- **A fork is a faithful, paused prefix.** At an event the parent has, the fork holds the
parent's rows up to it as they are, and the branch behind them; it replays, to a session that is
interrupted, has its queue paused and runs nothing, and its row agrees. The parent keeps its rows.
At an id the parent does not have, nothing is created. -/
theorem forkSession_faithful (fromStr : String → Option Json) (db : RawDatabase)
    (id createdAt parentSessionId : String) (title : Option String) (parent : RawSession)
    (P : SessionProjection) (hparent : db.sessions.get? parentSessionId = some parent)
    (hreplay : parent.projected fromStr parentSessionId = .ok P)
    (hcolumn : ∀ row ∈ parent.events.entries, row.1 ≤ i64Max)
    (hfresh : db.sessions.contains id = false) (atEventId : Nat)
    (hone : ∀ p, RawSession.projectedRows fromStr parentSessionId (parent.rowsTo atEventId) =
      .ok p → p.AtMostOneRunning)
    (htext : ∀ p, RawSession.projectedRows fromStr parentSessionId (parent.rowsTo atEventId) =
      .ok p → ∀ event ∈ Database.branchEvents parentSessionId atEventId p,
        ReadsText fromStr event) :
    (parent.events.contains atEventId = true → ∃ p child,
      RawSession.projectedRows fromStr parentSessionId (parent.rowsTo atEventId) = .ok p ∧
      db.forkSession fromStr id createdAt parentSessionId atEventId title =
        .ok { db with sessions := db.sessions.insert id child } ∧
      FaithfulFork fromStr id createdAt parentSessionId atEventId p parent child ∧
      (db.sessions.insert id child).get? parentSessionId = some parent) ∧
    (parent.events.contains atEventId = false →
      db.forkSession fromStr id createdAt parentSessionId atEventId title =
        .error (if i64Max < atEventId then .invalidCursor
          else .eventNotFound parentSessionId atEventId)) := by
  constructor
  · intro hcontains
    obtain ⟨hpos, hle⟩ := (contains_iff_of_projected hreplay).mp hcontains
    obtain ⟨columns, hget⟩ := (SortedMap.contains_iff _ _).mp hcontains
    have hid : atEventId ≤ i64Max := hcolumn _ ((SortedMap.get?_eq_some_iff _).mp hget)
    obtain ⟨p, events, hevents, hp⟩ := projectedRows_rowsTo hreplay hpos
    have hprojected : RawSession.projectedRows fromStr parentSessionId (parent.rowsTo atEventId) =
        .ok p := Except.bind_eq_ok.mpr ⟨events, hevents, hp⟩
    have hlength : events.length = atEventId := by
      have hrows := congrArg List.length (recordedColumns_ids hevents)
      rw [List.length_map, List.length_map, rowsTo_eq_take hreplay, List.length_take] at hrows
      omega
    have hkeyed : p.WellKeyed := project_preserves (SessionProjection.WellKeyed.new _)
      (fun h hp => SessionProjection.WellKeyed.apply hp h) hp
    obtain ⟨q, hbranch, hphase, hpaused, hrunning⟩ :=
      SessionProjection.applyLog_branchEvents hkeyed (hone p hprojected) parentSessionId atEventId
    obtain ⟨child, hchild, hrows, hrow⟩ := appendBranch_ok id createdAt
      (Nat.succ_pos atEventId) (s := {
        summary := {
          id, title, projectId := parent.summary.projectId
          parentSessionId := some parentSessionId, forkedAtEventId := some atEventId
          createdAt, updatedAt := createdAt, phase := p.state.phase
          revision := p.state.revision, lastEventId := atEventId, historyRetention := .forever }
        events := ⟨parent.rowsTo atEventId, parent.events.sorted.filter _⟩ }) (by
      intro row hmem
      have hkey := (List.mem_filter.mp hmem).2
      rw [decide_eq_true_eq] at hkey
      omega) ⟨rfl, rfl, rfl⟩ hbranch
    refine ⟨p, child, hprojected, ?_, ?_, ?_⟩
    · have hlast := (getLast?_rowsTo hreplay).mpr hcontains
      rw [RawDatabase.forkSession, hparent]
      simp only [Nat.not_lt.mpr hid, if_false, hlast, ne_eq, not_true_eq_false, hprojected,
        Except.bind, hfresh, Bool.false_eq_true, hchild, Except.map]
    · exact .of_branch hevents hp hlength hbranch hphase hpaused hrunning hid (htext p hprojected)
        hrows hrow
    · have hne : parentSessionId ≠ id := by
        rintro rfl
        rw [SortedMap.contains_eq_false_iff, hparent] at hfresh
        cases hfresh
      rw [SortedMap.get?_insert_of_ne _ _ hne, hparent]
  · intro hmissing
    have hlast : (parent.rowsTo atEventId).getLast?.map Prod.fst ≠ some atEventId := by
      rw [ne_eq, getLast?_rowsTo hreplay, hmissing]
      simp
    rw [RawDatabase.forkSession, hparent]
    simp only [hlast, ne_eq, not_false_eq_true, if_true]
    split <;> rfl

end Forking

/-- The fields of a creation, with one this version does not know. -/
def futureData : Json := .obj [("title", .null), ("unknown", .num 1)]

/-- A session as a later version may have created it. -/
def futureSession : RawSession where
  summary := createdSession.summary
  events := SortedMap.insert ∅ 1
    { schemaVersion := 1, type := "session_created", data := futureData.render, occurredAt := "t0" }

def futureDatabase : RawDatabase where
  sessions := SortedMap.insert ∅ "s" futureSession

def futureParser (text : String) : Option Json :=
  if text = futureData.render then some futureData
  else parserOf [.sessionForked "s" 1, .queuePaused] text

theorem futureSession_projected :
    futureSession.projected futureParser "s" = .ok createdProjection := by
  decide +kernel

/-- A fork of it keeps the field. -/
theorem forkSession_faithful_future : ∃ p child,
    futureDatabase.forkSession futureParser "f" "t1" "s" 1 none =
      .ok { sessions := futureDatabase.sessions.insert "f" child } ∧
    FaithfulFork futureParser "f" "t1" "s" 1 p futureSession child := by
  have hprojected : RawSession.projectedRows futureParser "s" (futureSession.rowsTo 1) =
      .ok createdProjection := by decide +kernel
  obtain ⟨p, child, -, hfork, hfaithful, -⟩ := (forkSession_faithful futureParser futureDatabase
    "f" "t1" "s" none futureSession createdProjection rfl futureSession_projected (by decide)
    (by decide) 1 (by
      intro p hp
      rw [hprojected] at hp
      cases hp
      intro runId run _ _ hrun
      cases hrun) (by
      intro p hp
      rw [hprojected] at hp
      cases hp
      decide +kernel)).1 (by decide)
  exact ⟨p, child, hfork, hfaithful⟩

/-- An id that no query can bind is reported as an invalid cursor. -/
theorem forkSession_beyond_i64 : futureSession.projected futureParser "s" = .ok createdProjection ∧
    futureSession.events.contains 9223372036854775808 = false ∧
    futureDatabase.forkSession futureParser "f" "t1" "s" 9223372036854775808 none =
      .error .invalidCursor ∧
    futureDatabase.forkSession futureParser "f" "t1" "s" 9223372036854775808 none ≠
      .error (.eventNotFound "s" 9223372036854775808) := by
  refine ⟨by decide +kernel, by decide +kernel, by decide +kernel, by decide +kernel⟩

end Piqo
