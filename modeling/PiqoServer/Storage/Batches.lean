import PiqoServer.Storage.Interleaving

/-!
# Interleaved batches

Any number of clients append batches of events to one session and read its projection, in any
order of the steps in between. The projection a batch is checked against may be a stale clone;
its ids come from the row, inside the transaction. A client notes down the reply to its batch.

## Main definitions

* `Issue`, `Command`: what clients issue, and the choices of the scheduler
* `IsBatch`: the records of a batch with consecutive ids
* `BatchOutcome`: the commits and replies that a client of the session may see

## Main results

* `IssueStage.step`: one step of a client
* `batches_dense`: ids stay dense, and every batch is stored as a whole or not at all
-/

namespace Piqo

/-! ## Clients -/

/-- What a client issues: a batch of events, or a reading of the projection. -/
inductive Issue where
  | append (events : List SemanticEvent)
  | read

/-- A batch with the reply to it. -/
structure BatchReport where
  events : List SemanticEvent
  reply : Except StoreError (List RecordedEvent)

/-- The reports of the clients. -/
def reportSignature : Signature where
  Op := BatchReport
  Reply _ := Unit

def BatchReport.program (report : BatchReport) : SessionProgram reportSignature :=
  .call (.other report) fun _ => .ret ()

/-- The program of a client: one call, and for a batch the report of its reply. -/
def Issue.program : Issue → SessionProgram reportSignature
  | .append events => .call (.append events) fun reply => BatchReport.program ⟨events, reply⟩
  | .read => .call .projection fun _ => .ret ()

/-- The choices of the scheduler. -/
inductive Command where
  | issue (client : Issue)
  | advance (i : Nat)
  | fault (i : Nat)
  | drop (i : Nat)
  | restart

def Command.action : Command → Action reportSignature
  | .issue client => .spawn client.program
  | .advance i => .advance i
  | .fault i => .fault i
  | .drop i => .drop i
  | .restart => .restart

def Command.issued? : Command → Option Issue
  | .issue client => some client
  | _ => none

/-! ## Outcomes -/

/-- The records a batch is stored and returned as: its events in order, under consecutive ids. -/
def IsBatch (sessionId : String) (events : List SemanticEvent) (records : List RecordedEvent) :
    Prop :=
  ∃ first now, records = (events.zipIdx first).map fun e =>
    StoredSession.returnedOf sessionId now e.2 e.1

/-- What is noted down of one client, in order. -/
inductive BatchOutcome (sessionId : String) : Issue → List (Label reportSignature) → Prop
  /-- Nothing yet, or the client is gone. -/
  | silent (issue : Issue) : BatchOutcome sessionId issue []
  /-- Committed, and the reply has not reached the client. -/
  | committed {events records} (hbatch : IsBatch sessionId events records) :
    BatchOutcome sessionId (.append events) [.committed records]
  /-- A batch that fails is not committed. -/
  | failed (events : List SemanticEvent) (e : StoreError) :
    BatchOutcome sessionId (.append events) [.performed (⟨events, .error e⟩ : BatchReport) ()]
  | empty : BatchOutcome sessionId (.append []) [.performed (⟨[], .ok []⟩ : BatchReport) ()]
  /-- A batch that succeeds is committed once and returned as it was committed. -/
  | succeeded {events records} (hbatch : IsBatch sessionId events records) :
    BatchOutcome sessionId (.append events)
      [.committed records, .performed (⟨events, .ok records⟩ : BatchReport) ()]

/-- The records of a commit. -/
def Label.batch {S : Signature} : Label S → List RecordedEvent
  | .committed records => records
  | .performed _ _ => []

/-- Where a client stands, and what has been noted down of it. -/
inductive IssueStage (sessionId : String) :
    Issue → Task reportSignature → List (Label reportSignature) → Prop
  | issued (issue : Issue) : IssueStage sessionId issue ⟨issue.program, .idle⟩ []
  | cloned (events : List SemanticEvent) (cached : Option SessionProjection) :
    IssueStage sessionId (.append events) ⟨(Issue.append events).program, .cloned cached⟩ []
  | committed {events records} (p : SessionProjection) (hbatch : IsBatch sessionId events records) :
    IssueStage sessionId (.append events) ⟨(Issue.append events).program, .committed p records⟩
      [.committed records]
  | failed (events : List SemanticEvent) (e : StoreError) :
    IssueStage sessionId (.append events) ⟨BatchReport.program ⟨events, .error e⟩, .idle⟩ []
  | empty : IssueStage sessionId (.append []) ⟨BatchReport.program ⟨[], .ok []⟩, .idle⟩ []
  | succeeded {events records} (hbatch : IsBatch sessionId events records) :
    IssueStage sessionId (.append events) ⟨BatchReport.program ⟨events, .ok records⟩, .idle⟩
      [.committed records]
  | missed : IssueStage sessionId .read ⟨Issue.read.program, .missed⟩ []
  | loaded (p : SessionProjection) : IssueStage sessionId .read ⟨Issue.read.program, .loaded p⟩ []
  | ended {issue labels} (houtcome : BatchOutcome sessionId issue labels) :
    IssueStage sessionId issue .ended labels

namespace IssueStage

variable {sessionId : String} {issue : Issue} {task : Task reportSignature}
  {labels : List (Label reportSignature)}

theorem outcome (h : IssueStage sessionId issue task labels) :
    BatchOutcome sessionId issue labels := by
  cases h with
  | committed p hbatch => exact .committed hbatch
  | succeeded hbatch => exact .committed hbatch
  | ended houtcome => exact houtcome
  | issued => exact .silent _
  | cloned => exact .silent _
  | failed => exact .silent _
  | empty => exact .silent _
  | missed => exact .silent _
  | loaded => exact .silent _

theorem fault (h : IssueStage sessionId issue task labels) :
    IssueStage sessionId issue task.fault labels := by
  cases h with
  | cloned events cached => exact .failed events .database
  | missed => exact .ended (.silent _)
  | issued issue => cases issue <;> exact .issued _
  | committed p hbatch => exact .committed p hbatch
  | failed events e => exact .failed events e
  | empty => exact .empty
  | succeeded hbatch => exact .succeeded hbatch
  | loaded p => exact .loaded p
  | ended houtcome => exact .ended houtcome

/-- One step of a client: it commits its batch behind the log, or leaves the log alone. -/
theorem step (h : IssueStage sessionId issue task labels) (now : Nat → String)
    (answer : (op : reportSignature.Op) → reportSignature.Reply op) {session : StoredSession}
    (cache : Option SessionProjection) (hdense : session.Dense) :
    (task.step sessionId now answer session cache).session.Dense ∧
      (task.step sessionId now answer session cache).session.records sessionId =
        session.records sessionId ++
          ((task.step sessionId now answer session cache).labels.flatMap Label.batch).map
            RecordedEvent.reload ∧
      IssueStage sessionId issue (task.step sessionId now answer session cache).task
        (labels ++ (task.step sessionId now answer session cache).labels) := by
  have hsame : session.records sessionId = session.records sessionId ++
      (([] : List (Label reportSignature)).flatMap Label.batch).map RecordedEvent.reload := by
    simp
  cases h with
  | issued issue =>
    cases issue with
    | append events =>
      simp only [Issue.program, Task.step]
      split
      · next hnil =>
        subst hnil
        exact ⟨hdense, hsame, .empty⟩
      · exact ⟨hdense, hsame, .cloned events cache⟩
    | read =>
      cases cache with
      | none => exact ⟨hdense, hsame, .missed⟩
      | some p => exact ⟨hdense, hsame, .ended (.silent _)⟩
  | cloned events cached =>
    simp only [Issue.program, Task.step]
    split
    · next session' p records happend =>
      obtain ⟨base, -, hall⟩ := Except.bind_eq_ok.mp happend
      -- the ids come from the row, whatever projection the batch was checked against
      obtain ⟨hdense', -, hentries, hrecords⟩ := hdense.appendAll hall
      refine ⟨hdense', ?_, .committed p ⟨_, now, hrecords⟩⟩
      rw [StoredSession.records, hentries, hrecords]
      simp only [StoredSession.records, Label.batch, List.map_append, List.map_map,
        List.flatMap_cons, List.flatMap_nil, List.append_nil]
      rfl
    · next e happend => exact ⟨hdense, hsame, .failed events e⟩
  | committed p hbatch => exact ⟨hdense, hsame, .succeeded hbatch⟩
  | failed events e =>
    exact ⟨hdense, by simp [BatchReport.program, Task.step, Label.batch], .ended (.failed events e)⟩
  | empty => exact ⟨hdense, by simp [BatchReport.program, Task.step, Label.batch], .ended .empty⟩
  | succeeded hbatch =>
    exact ⟨hdense, by simp [BatchReport.program, Task.step, Label.batch],
      .ended (.succeeded hbatch)⟩
  | missed =>
    simp only [Issue.program, Task.step]
    split
    · next p hload => exact ⟨hdense, hsame, .loaded p⟩
    · exact ⟨hdense, hsame, .ended (.silent _)⟩
  | loaded p => exact ⟨hdense, hsame, .ended (.silent _)⟩
  | ended houtcome => exact ⟨hdense, hsame, by simpa [Task.ended, Task.step] using .ended houtcome⟩

end IssueStage

/-! ## Schedules -/

namespace Machine

/-- What is noted down of task `i`. -/
def labels {S : Signature} (m : Machine S) (i : Nat) : List (Label S) :=
  m.history.filterMap fun entry => if entry.1 = i then some entry.2 else none

/-- The records of all commits, in the order of the commits. -/
def batches {S : Signature} (m : Machine S) : List RecordedEvent :=
  m.history.flatMap (·.2.batch)

/-- The log is the one at the start with the commits behind it, and every client stands at a
stage that fits what is noted down of it. -/
structure Batched (sessionId : String) (session : StoredSession) (issues : List Issue)
    (m : Machine reportSignature) : Prop where
  dense : m.session.Dense
  log : m.session.records sessionId =
    session.records sessionId ++ m.batches.map RecordedEvent.reload
  count : m.tasks.length = issues.length
  noted : ∀ entry ∈ m.history, entry.1 < m.tasks.length
  stage : ∀ i issue, issues[i]? = some issue →
    ∃ task, m.tasks[i]? = some task ∧ IssueStage sessionId issue task (m.labels i)

theorem labels_append {S : Signature} (m : Machine S) (i j : Nat) (labels : List (Label S)) :
    (m.history ++ labels.map (j, ·)).filterMap
        (fun entry => if entry.1 = i then some entry.2 else none) =
      m.labels i ++ if j = i then labels else [] := by
  rw [List.filterMap_append, List.filterMap_map]
  congr 1
  split
  · next hj => simp [hj]
  · next hj => simp [hj]

variable {sessionId : String} {session : StoredSession} {issues : List Issue}
  {m : Machine reportSignature}

theorem Batched.start (sessionId : String) (hdense : session.Dense) (cache : Option SessionProjection) :
    (Machine.start session cache).Batched sessionId session [] where
  dense := hdense
  log := by simp [Machine.start, batches]
  count := rfl
  noted := by simp [Machine.start]
  stage := by simp

/-- Changing the tasks alone, each within its stage. -/
theorem Batched.retask (h : m.Batched sessionId session issues)
    {tasks : List (Task reportSignature)} {cache : Option SessionProjection} {clock : Nat}
    (hlength : tasks.length = m.tasks.length)
    (hstage : ∀ (i : Nat) (task : Task reportSignature) (issue : Issue), m.tasks[i]? = some task →
      IssueStage sessionId issue task (m.labels i) →
        ∃ task', tasks[i]? = some task' ∧ IssueStage sessionId issue task' (m.labels i)) :
    Batched sessionId session issues { m with tasks, cache, clock } where
  dense := h.dense
  log := h.log
  count := hlength.trans h.count
  noted entry hentry := hlength ▸ h.noted entry hentry
  stage i issue hissue := by
    obtain ⟨task, htask, hstands⟩ := h.stage i issue hissue
    exact hstage i task issue htask hstands

theorem Batched.step (env : Environment reportSignature)
    (h : m.Batched sessionId session issues) (command : Command) :
    (m.step sessionId env command.action).Batched sessionId session
      (issues ++ command.issued?.toList) := by
  cases command with
  | issue client =>
    refine ⟨h.dense, h.log, ?_, ?_, ?_⟩
    · simp [Command.action, Command.issued?, Machine.step, act, h.count]
    · intro entry hentry
      have hlt := h.noted entry hentry
      simp only [Command.action, Machine.step, act, List.length_append, List.length_singleton]
      omega
    · intro i issue hissue
      rcases Nat.lt_trichotomy i issues.length with hi | hi | hi
      · obtain ⟨task, htask, hstands⟩ := h.stage i issue (by
          rwa [List.getElem?_append_left hi] at hissue)
        refine ⟨task, ?_, hstands⟩
        rw [← h.count] at hi
        exact (List.getElem?_append_left hi).trans htask
      · -- the new client: nothing is noted down of it
        have hnone : m.labels i = [] := by
          refine List.filterMap_eq_nil_iff.mpr ?_
          intro entry hentry
          have hlt := h.noted entry hentry
          rw [h.count] at hlt
          rw [if_neg (by omega)]
        obtain rfl : client = issue := by simpa [hi, Command.issued?] using hissue
        refine ⟨⟨client.program, .idle⟩, ?_, ?_⟩
        · simp [Command.action, Machine.step, act, hi, ← h.count]
        · change IssueStage sessionId client _ (m.labels i)
          rw [hnone]
          exact .issued client
      · rw [List.getElem?_eq_none] at hissue
        · cases hissue
        · simp only [Command.issued?, Option.toList_some, List.length_append,
            List.length_singleton]
          omega
  | advance i =>
    simp only [Command.action, Command.issued?, Option.toList_none, List.append_nil, Machine.step,
      act, advance]
    split
    · exact ⟨h.dense, h.log, h.count, h.noted, h.stage⟩
    · next task htask =>
      have hi : i < m.tasks.length := (List.getElem?_eq_some_iff.mp htask).1
      obtain ⟨issue, hissue⟩ : ∃ issue, issues[i]? = some issue :=
        ⟨_, List.getElem?_eq_getElem (h.count ▸ hi)⟩
      obtain ⟨task', htask', hstands⟩ := h.stage i issue hissue
      rw [htask] at htask'
      obtain rfl := Option.some.inj htask'
      obtain ⟨hdense, hlog, hnext⟩ :=
        hstands.step (env.now m.clock) (env.answer m.clock) m.cache h.dense
      refine ⟨hdense, ?_, by simpa using h.count, ?_, ?_⟩
      · rw [hlog, h.log, batches, batches, List.flatMap_append, List.flatMap_map, List.map_append,
          List.append_assoc]
      · intro entry hentry
        rw [List.length_set]
        rcases List.mem_append.mp hentry with hentry | hentry
        · exact h.noted entry hentry
        · obtain ⟨label, -, rfl⟩ := List.mem_map.mp hentry
          exact hi
      · intro j issue' hissue'
        rw [labels, labels_append]
        by_cases hj : i = j
        · subst hj
          rw [hissue] at hissue'
          obtain rfl := Option.some.inj hissue'
          rw [if_pos rfl]
          exact ⟨_, List.getElem?_set_self hi, hnext⟩
        · obtain ⟨task', htask', hstands'⟩ := h.stage j issue' hissue'
          rw [if_neg hj, List.append_nil]
          exact ⟨task', by rw [List.getElem?_set_ne hj, htask'], hstands'⟩
  | fault i =>
    simp only [Command.action, Command.issued?, Option.toList_none, List.append_nil, Machine.step,
      act]
    refine h.retask (by simp) ?_
    intro j task issue htask hstands
    rw [List.getElem?_modify, htask]
    split
    · exact ⟨_, rfl, hstands.fault⟩
    · exact ⟨_, rfl, hstands⟩
  | drop i =>
    simp only [Command.action, Command.issued?, Option.toList_none, List.append_nil, Machine.step,
      act]
    refine h.retask (by simp) ?_
    intro j task issue htask hstands
    rw [List.getElem?_modify, htask]
    split
    · exact ⟨_, rfl, .ended hstands.outcome⟩
    · exact ⟨_, rfl, hstands⟩
  | restart =>
    simp only [Command.action, Command.issued?, Option.toList_none, List.append_nil, Machine.step,
      act]
    refine h.retask (by simp) ?_
    intro j task issue htask hstands
    rw [List.getElem?_map, htask]
    exact ⟨_, rfl, .ended hstands.outcome⟩

theorem Batched.run (env : Environment reportSignature)
    (h : m.Batched sessionId session issues) (commands : List Command) :
    (m.run sessionId env (commands.map Command.action)).Batched sessionId session
      (issues ++ commands.filterMap Command.issued?) := by
  induction commands generalizing m issues with
  | nil => simpa [Machine.run] using h
  | cons command commands ih =>
    have hrest := ih (h.step env command)
    rw [List.append_assoc] at hrest
    cases command <;> exact hrest

/-- **Ids stay dense under concurrency.** Whatever the clients issue and in whatever order their
steps are taken, the log has the ids `1 … n`. It is the log at the start with the committed
batches behind it, each under consecutive ids; a batch whose caller gets records is committed
once, as these records, and a batch whose caller gets an error is not committed. -/
theorem batches_dense (sessionId : String) (env : Environment reportSignature)
    (session : StoredSession) (cache : Option SessionProjection) (hdense : session.Dense)
    (commands : List Command) :
    let m := (Machine.start session cache).run sessionId env (commands.map Command.action)
    m.session.events.keys = List.range' 1 m.session.summary.lastEventId ∧
      m.session.records sessionId =
        session.records sessionId ++ m.batches.map RecordedEvent.reload ∧
      ∀ i issue, (commands.filterMap Command.issued?)[i]? = some issue →
        BatchOutcome sessionId issue (m.labels i) := by
  have hrun := (Batched.start sessionId hdense cache).run env commands
  refine ⟨hrun.dense.keys, hrun.log, ?_⟩
  intro i issue hissue
  obtain ⟨task, -, hstands⟩ := hrun.stage i issue (by simpa using hissue)
  exact hstands.outcome

/-- Two batches, the second from a clone that the first one has made stale. -/
def staleBatches : List Command :=
  [.issue (.append [.queuePaused]), .issue (.append [.queueResumed, .queuePaused]),
    .advance 0, .advance 1, .advance 0, .advance 1, .advance 1, .advance 0]

/-- An environment in which the clock stands still. -/
def reportEnvironment : Environment reportSignature where
  answer _ _ := ()
  now _ _ := "t1"

theorem batches_dense_stale : createdSession.Dense ∧
    ((Machine.start createdSession (some createdProjection)).run "s" reportEnvironment
      (staleBatches.map Command.action)).session.events.keys = List.range' 1 4 :=
  ⟨createdSession_coherent.dense, (batches_dense "s" reportEnvironment createdSession
    (some createdProjection) createdSession_coherent.dense staleBatches).1⟩

end Machine

end Piqo
