import PiqoServer.Storage.Coherence

/-!
# Interleaved calls on one session

Any number of tasks call `append_events` and `projection` on one session, and other operations
that do not touch it. A task gives way at the await points of the code: `append_events` reads the
cache, later runs its transaction, later writes the cache; `projection` reads the cache and, when
nothing is cached, later reads the log, and later writes the cache. Transactions are atomic and
there is one connection, so a transaction is one step. A task may be dropped at any of its await
points, a call may fail with a database error instead of reaching the database, and a restart
drops all tasks and the cache.

## Main definitions

* `SessionOp`, `sessionSignature`: calls on the session, and the other operations of a program
* `Phase`, `Task`: a program and how far its current call has come
* `Task.step`: one step of a task
* `Machine`, `Action`, `Machine.step`, `Machine.run`: all tasks over the rows and the cache
* `Machine.history`: the commits and the other operations, in order

## Main results

* `Task.step_steps`: everything a step can do
* `Machine.Replayable.run`: as long as every transaction starts from the log or from a clone of
  its projection, the log replays, the row agrees with it, and every projection in memory is that
  of a prefix of the log
-/

namespace Piqo

/-! ## Programs on a session -/

/-- A call on the session, or another operation. -/
inductive SessionOp (S : Signature) where
  | append (events : List SemanticEvent)
  | projection
  | other (op : S.Op)

/-- What a session operation replies. -/
abbrev SessionOp.Reply {S : Signature} : SessionOp S → Type
  | .append _ => Except StoreError (List RecordedEvent)
  | .projection => Except StoreError SessionProjection
  | .other op => S.Reply op

/-- Session operations as a signature. -/
abbrev sessionSignature (S : Signature) : Signature where
  Op := SessionOp S
  Reply := SessionOp.Reply

/-- The program of a task. -/
abbrev SessionProgram (S : Signature) := Program (sessionSignature S) StoreError Unit

/-! ## Tasks -/

/-- How far the current call of a task has come. -/
inductive Phase where
  /-- Between calls. -/
  | idle
  /-- In `append_events`, with what the cache held. -/
  | cloned (cached : Option SessionProjection)
  /-- In `append_events`, committed, with what goes to the cache and to the caller. -/
  | committed (p : SessionProjection) (records : List RecordedEvent)
  /-- In `projection`, with nothing cached. -/
  | missed
  /-- In `projection`, with what goes to the cache and to the caller. -/
  | loaded (p : SessionProjection)

/-- The projection a call holds. -/
def Phase.held : Phase → Option SessionProjection
  | .cloned cached => cached
  | .committed p _ => some p
  | .loaded p => some p
  | .idle | .missed => none

variable {S : Signature}

structure Task (S : Signature) where
  program : SessionProgram S
  phase : Phase

/-- A task that has ended. -/
def Task.ended : Task S := ⟨.ret (), .idle⟩

/-- What an observer notes down. -/
inductive Label (S : Signature) where
  | committed (records : List RecordedEvent)
  | performed (op : S.Op) (reply : S.Reply op)

/-- What a step of a task leaves behind. -/
structure StepResult (S : Signature) where
  session : StoredSession
  cache : Option SessionProjection
  task : Task S
  labels : List (Label S)

/-- The log read by `projection`. -/
def StoredSession.loadProjection (s : StoredSession) (sessionId : String) :
    Except StoreError SessionProjection :=
  (s.readEvents sessionId 0 u32Max).bind (project sessionId)

theorem StoredSession.Coherent.loadProjection {s : StoredSession} {sessionId : String}
    {p : SessionProjection} (h : s.Coherent sessionId p) :
    s.loadProjection sessionId = .ok p := by
  rw [StoredSession.loadProjection, h.dense.readEvents, if_neg (Nat.not_lt_zero _), List.drop_zero]
  exact (StoredSession.projected_eq_ok.mp h.projected).2

/-- One step of a task; `answer` replies to the operations that are not calls on the session. -/
def Task.step (sessionId : String) (now : Nat → String) (answer : (op : S.Op) → S.Reply op)
    (session : StoredSession) (cache : Option SessionProjection) : Task S → StepResult S
  | ⟨.call (.append events) k, .idle⟩ =>
    if events = [] then ⟨session, cache, ⟨k (.ok []), .idle⟩, []⟩
    else ⟨session, cache, ⟨.call (.append events) k, .cloned cache⟩, []⟩
  | ⟨.call (.append events) k, .cloned cached⟩ =>
    match session.append sessionId now cached events with
    | .ok (session, p, records) =>
      ⟨session, cache, ⟨.call (.append events) k, .committed p records⟩, [.committed records]⟩
    | .error e => ⟨session, cache, ⟨k (.error e), .idle⟩, []⟩
  | ⟨.call (.append _) k, .committed p records⟩ =>
    ⟨session, some p, ⟨k (.ok records), .idle⟩, []⟩
  | ⟨.call .projection k, .idle⟩ =>
    match cache with
    | some p => ⟨session, cache, ⟨k (.ok p), .idle⟩, []⟩
    | none => ⟨session, cache, ⟨.call .projection k, .missed⟩, []⟩
  | ⟨.call .projection k, .missed⟩ =>
    match session.loadProjection sessionId with
    | .ok p => ⟨session, cache, ⟨.call .projection k, .loaded p⟩, []⟩
    | .error e => ⟨session, cache, ⟨k (.error e), .idle⟩, []⟩
  | ⟨.call .projection k, .loaded p⟩ => ⟨session, some p, ⟨k (.ok p), .idle⟩, []⟩
  | ⟨.call (.other op) k, .idle⟩ =>
    ⟨session, cache, ⟨k (answer op), .idle⟩, [.performed op (answer op)]⟩
  | task => ⟨session, cache, task, []⟩

/-- A database error while the call waits for the connection. -/
def Task.fault : Task S → Task S
  | ⟨.call (.append _) k, .cloned _⟩ => ⟨k (.error .database), .idle⟩
  | ⟨.call .projection k, .missed⟩ => ⟨k (.error .database), .idle⟩
  | task => task

/-- Everything a step can do. -/
inductive Task.Steps (sessionId : String) (now : Nat → String)
    (answer : (op : S.Op) → S.Reply op) (session : StoredSession)
    (cache : Option SessionProjection) : Task S → StepResult S → Prop
  | appendNothing (k) :
    Steps sessionId now answer session cache ⟨.call (.append []) k, .idle⟩
      ⟨session, cache, ⟨k (.ok []), .idle⟩, []⟩
  | clone (events k) (hne : events ≠ []) :
    Steps sessionId now answer session cache ⟨.call (.append events) k, .idle⟩
      ⟨session, cache, ⟨.call (.append events) k, .cloned cache⟩, []⟩
  | commit (events k cached session' p records)
      (happend : session.append sessionId now cached events = .ok (session', p, records)) :
    Steps sessionId now answer session cache ⟨.call (.append events) k, .cloned cached⟩
      ⟨session', cache, ⟨.call (.append events) k, .committed p records⟩, [.committed records]⟩
  | reject (events k cached e) (happend : session.append sessionId now cached events = .error e) :
    Steps sessionId now answer session cache ⟨.call (.append events) k, .cloned cached⟩
      ⟨session, cache, ⟨k (.error e), .idle⟩, []⟩
  | writeCommitted (events k p records) :
    Steps sessionId now answer session cache ⟨.call (.append events) k, .committed p records⟩
      ⟨session, some p, ⟨k (.ok records), .idle⟩, []⟩
  | hit (k p) (hcache : cache = some p) :
    Steps sessionId now answer session cache ⟨.call .projection k, .idle⟩
      ⟨session, cache, ⟨k (.ok p), .idle⟩, []⟩
  | miss (k) (hcache : cache = none) :
    Steps sessionId now answer session cache ⟨.call .projection k, .idle⟩
      ⟨session, cache, ⟨.call .projection k, .missed⟩, []⟩
  | load (k p) (hload : session.loadProjection sessionId = .ok p) :
    Steps sessionId now answer session cache ⟨.call .projection k, .missed⟩
      ⟨session, cache, ⟨.call .projection k, .loaded p⟩, []⟩
  | loadError (k e) (hload : session.loadProjection sessionId = .error e) :
    Steps sessionId now answer session cache ⟨.call .projection k, .missed⟩
      ⟨session, cache, ⟨k (.error e), .idle⟩, []⟩
  | writeLoaded (k p) :
    Steps sessionId now answer session cache ⟨.call .projection k, .loaded p⟩
      ⟨session, some p, ⟨k (.ok p), .idle⟩, []⟩
  | perform (op k) :
    Steps sessionId now answer session cache ⟨.call (.other op) k, .idle⟩
      ⟨session, cache, ⟨k (answer op), .idle⟩, [.performed op (answer op)]⟩
  | stay (task) : Steps sessionId now answer session cache task ⟨session, cache, task, []⟩

theorem Task.step_steps (sessionId : String) (now : Nat → String)
    (answer : (op : S.Op) → S.Reply op) (session : StoredSession)
    (cache : Option SessionProjection) (task : Task S) :
    Task.Steps sessionId now answer session cache task
      (task.step sessionId now answer session cache) := by
  unfold Task.step
  split
  · split
    · next events k h => subst h; exact .appendNothing k
    · next events k h => exact .clone events k h
  · split
    · next happend => exact .commit _ _ _ _ _ _ happend
    · next happend => exact .reject _ _ _ _ happend
  · exact .writeCommitted ..
  · split
    · exact .hit _ _ rfl
    · exact .miss _ rfl
  · split
    · next hload => exact .load _ _ hload
    · next hload => exact .loadError _ _ hload
  · exact .writeLoaded ..
  · exact .perform ..
  · exact .stay _

theorem mem_modify {α : Type} {f : α → α} {i : Nat} {xs : List α} {x : α}
    (h : x ∈ xs.modify i f) : x ∈ xs ∨ ∃ y ∈ xs, x = f y := by
  induction xs generalizing i with
  | nil => simp at h
  | cons y ys ih =>
    cases i with
    | zero =>
      rw [List.modify_zero_cons] at h
      rcases List.mem_cons.mp h with rfl | h
      · exact .inr ⟨y, List.mem_cons_self, rfl⟩
      · exact .inl (List.mem_cons_of_mem _ h)
    | succ i =>
      rw [List.modify_succ_cons] at h
      rcases List.mem_cons.mp h with rfl | h
      · exact .inl List.mem_cons_self
      · rcases ih h with h | ⟨z, hz, rfl⟩
        · exact .inl (List.mem_cons_of_mem _ h)
        · exact .inr ⟨z, List.mem_cons_of_mem _ hz, rfl⟩

/-! ## The machine -/

/-- What the environment decides: the replies to other operations and the clock, by step. -/
structure Environment (S : Signature) where
  answer : Nat → (op : S.Op) → S.Reply op
  now : Nat → Nat → String

structure Machine (S : Signature) where
  session : StoredSession
  cache : Option SessionProjection
  tasks : List (Task S)
  clock : Nat
  history : List (Nat × Label S)

/-- What the scheduler can choose. -/
inductive Action (S : Signature) where
  | spawn (program : SessionProgram S)
  | advance (i : Nat)
  | fault (i : Nat)
  | drop (i : Nat)
  | restart

namespace Machine

variable (sessionId : String) (env : Environment S)

/-- A machine without tasks. -/
def start (session : StoredSession) (cache : Option SessionProjection) : Machine S :=
  { session, cache, tasks := [], clock := 0, history := [] }

/-- One step of task `i`. -/
def advance (m : Machine S) (i : Nat) : Machine S :=
  match m.tasks[i]? with
  | none => m
  | some task =>
    let r := task.step sessionId (env.now m.clock) (env.answer m.clock) m.session m.cache
    { m with
      session := r.session, cache := r.cache, tasks := m.tasks.set i r.task
      history := m.history ++ r.labels.map (i, ·) }

/-- What an action does, apart from the clock. -/
def act (m : Machine S) : Action S → Machine S
  | .spawn program => { m with tasks := m.tasks ++ [⟨program, .idle⟩] }
  | .advance i => m.advance sessionId env i
  | .fault i => { m with tasks := m.tasks.modify i Task.fault }
  | .drop i => { m with tasks := m.tasks.modify i fun _ => .ended }
  | .restart => { m with cache := none, tasks := m.tasks.map fun _ => .ended }

def step (m : Machine S) (a : Action S) : Machine S :=
  { m.act sessionId env a with clock := m.clock + 1 }

def run (m : Machine S) (actions : List (Action S)) : Machine S :=
  actions.foldl (step sessionId env) m

/-- No call is in flight. -/
def Quiescent (m : Machine S) : Prop := ∀ task ∈ m.tasks, task.phase = .idle

/-- Every step of a run satisfies `P` in the state before it. -/
def Along (P : Machine S → Action S → Prop) : Machine S → List (Action S) → Prop
  | _, [] => True
  | m, a :: actions => P m a ∧ Along P (m.step sessionId env a) actions

variable {sessionId env}

/-- An invariant of the steps that satisfy `P` is one of the runs along `P`. -/
theorem Along.invariant {P : Machine S → Action S → Prop} {I : Machine S → Prop}
    (hstep : ∀ m a, I m → P m a → I (m.step sessionId env a)) {m : Machine S}
    {actions : List (Action S)} (hI : I m) (h : Along sessionId env P m actions) :
    I (m.run sessionId env actions) := by
  induction actions generalizing m with
  | nil => exact hI
  | cons a actions ih => exact ih (hstep m a hI h.1) h.2

theorem Along.mono {P Q : Machine S → Action S → Prop} (hPQ : ∀ m a, P m a → Q m a)
    {m : Machine S} {actions : List (Action S)} (h : Along sessionId env P m actions) :
    Along sessionId env Q m actions := by
  induction actions generalizing m with
  | nil => trivial
  | cons a actions ih => exact ⟨hPQ m a h.1, ih h.2⟩

theorem Along.and {P Q : Machine S → Action S → Prop} {m : Machine S} {actions : List (Action S)}
    (hP : Along sessionId env P m actions) (hQ : Along sessionId env Q m actions) :
    Along sessionId env (fun m a => P m a ∧ Q m a) m actions := by
  induction actions generalizing m with
  | nil => trivial
  | cons a actions ih => exact ⟨⟨hP.1, hQ.1⟩, ih hP.2 hQ.2⟩

/-! ## Projections in memory -/

/-- Every projection in memory is that of a prefix of the log, up to reloading; the row agrees
with the whole log. -/
structure Replayable (sessionId : String) (m : Machine S) : Prop where
  coherent : ∃ p, m.session.Coherent sessionId p
  cached : ∀ p, m.cache = some p → m.session.HasPrefix sessionId p
  held : ∀ task ∈ m.tasks, ∀ p, task.phase.held = some p → m.session.HasPrefix sessionId p

/-- A transaction that starts from a clone of the cache starts from the last event. -/
def FreshClone (m : Machine S) : Action S → Prop
  | .advance i => ∀ task, m.tasks[i]? = some task →
      ∀ p, task.phase = .cloned (some p) → m.session.Current p
  | _ => True

theorem Replayable.start {session : StoredSession} {cache : Option SessionProjection}
    {p : SessionProjection} (hs : session.Coherent sessionId p)
    (hcache : ∀ q, cache = some q → q.reload = p) :
    (Machine.start session cache : Machine S).Replayable sessionId where
  coherent := ⟨p, hs⟩
  cached q hq := StoredSession.Coherent.hasPrefix ((hcache q hq).symm ▸ hs)
  held _ htask := by simp [Machine.start] at htask

/-- A transaction that starts from the log, or from a clone that is still current. -/
theorem Replayable.commit {m : Machine S} (h : m.Replayable sessionId) {now : Nat → String}
    {cached : Option SessionProjection} {events : List SemanticEvent} {session' : StoredSession}
    {q : SessionProjection} {records : List RecordedEvent}
    (hheld : ∀ p, cached = some p → m.session.HasPrefix sessionId p)
    (hfresh : ∀ p, cached = some p → m.session.Current p)
    (happend : m.session.append sessionId now cached events = .ok (session', q, records)) :
    ∃ base, m.session.baseProjection sessionId cached = .ok base ∧
      m.session.Coherent sessionId base.reload ∧
      StoredSession.appendAll sessionId now m.session base events = .ok (session', q, records) ∧
      session'.Coherent sessionId q.reload := by
  obtain ⟨P, hP⟩ := h.coherent
  obtain ⟨base, hbase, hall⟩ := Except.bind_eq_ok.mp happend
  have hcoh : m.session.Coherent sessionId base.reload := by
    cases cached with
    | none =>
      cases hP.projected.symm.trans hbase
      exact hP.reload_eq.symm ▸ hP
    | some p =>
      cases hbase
      have hp := hP.eq_of_current (hheld base rfl) (hfresh base rfl)
      exact hp.symm ▸ hP
  exact ⟨base, hbase, hcoh, hall, hcoh.appendAll hall⟩

/-- What a step does to the rows: nothing, or one transaction. -/
theorem Replayable.steps {m : Machine S} (h : m.Replayable sessionId) {now : Nat → String}
    {answer : (op : S.Op) → S.Reply op} {task : Task S} {r : StepResult S}
    (htask : task ∈ m.tasks)
    (hfresh : ∀ p, task.phase = .cloned (some p) → m.session.Current p)
    (hr : Task.Steps sessionId now answer m.session m.cache task r) :
    (∃ p, r.session.Coherent sessionId p) ∧
      (∀ p, m.session.HasPrefix sessionId p → r.session.HasPrefix sessionId p) ∧
      (∀ p, r.cache = some p → r.session.HasPrefix sessionId p) ∧
      ∀ p, r.task.phase.held = some p → r.session.HasPrefix sessionId p := by
  obtain ⟨P, hP⟩ := h.coherent
  have hheld := h.held task htask
  cases hr with
  | commit events k cached session' q records happend =>
    obtain ⟨base, -, -, hall, hnew⟩ :=
      h.commit (fun p hp => hheld p hp) (fun p hp => hfresh p (hp ▸ rfl)) happend
    obtain ⟨-, hlast, hentries, -⟩ := hP.dense.appendAll hall
    have hkeep : ∀ p, m.session.HasPrefix sessionId p → session'.HasPrefix sessionId p :=
      fun p hp => hp.extend hP.dense hentries (by omega)
    refine ⟨⟨_, hnew⟩, hkeep, fun p hp => hkeep p (h.cached p hp), fun p hp => ?_⟩
    cases hp
    exact hnew.hasPrefix
  | clone events k hne => exact ⟨⟨P, hP⟩, fun _ => id, h.cached, h.cached⟩
  | writeCommitted events k p records =>
    refine ⟨⟨P, hP⟩, fun _ => id, fun q hq => ?_, fun q hq => nomatch hq⟩
    cases hq
    exact hheld p rfl
  | writeLoaded k p =>
    refine ⟨⟨P, hP⟩, fun _ => id, fun q hq => ?_, fun q hq => nomatch hq⟩
    cases hq
    exact hheld p rfl
  | load k p hload =>
    refine ⟨⟨P, hP⟩, fun _ => id, h.cached, fun q hq => ?_⟩
    cases hq
    cases (hP.loadProjection.symm.trans hload)
    exact StoredSession.Coherent.hasPrefix (hP.reload_eq.symm ▸ hP)
  | stay => exact ⟨⟨P, hP⟩, fun _ => id, h.cached, hheld⟩
  | appendNothing => exact ⟨⟨P, hP⟩, fun _ => id, h.cached, fun q hq => nomatch hq⟩
  | reject => exact ⟨⟨P, hP⟩, fun _ => id, h.cached, fun q hq => nomatch hq⟩
  | hit => exact ⟨⟨P, hP⟩, fun _ => id, h.cached, fun q hq => nomatch hq⟩
  | miss => exact ⟨⟨P, hP⟩, fun _ => id, h.cached, fun q hq => nomatch hq⟩
  | loadError => exact ⟨⟨P, hP⟩, fun _ => id, h.cached, fun q hq => nomatch hq⟩
  | perform => exact ⟨⟨P, hP⟩, fun _ => id, h.cached, fun q hq => nomatch hq⟩

theorem held_fault (task : Task S) {p : SessionProjection}
    (h : task.fault.phase.held = some p) : task.phase.held = some p := by
  unfold Task.fault at h
  split at h
  · cases h
  · cases h
  · exact h

/-- **The log replays and the row agrees with it**, as long as every transaction starts from the
log or from a clone that is still current. -/
theorem Replayable.step {m : Machine S} (h : m.Replayable sessionId) {a : Action S}
    (ha : m.FreshClone a) : (m.step sessionId env a).Replayable sessionId := by
  cases a with
  | spawn program =>
    refine ⟨h.coherent, h.cached, fun task htask p hp => ?_⟩
    rcases List.mem_append.mp htask with htask | htask
    · exact h.held task htask p hp
    · cases List.mem_singleton.mp htask
      cases hp
  | advance i =>
    simp only [Machine.step, act, advance]
    split
    · exact ⟨h.coherent, h.cached, h.held⟩
    · next task htask =>
      have hmem : task ∈ m.tasks := List.mem_of_getElem? htask
      obtain ⟨hcoh, hkeep, hcache, hheld⟩ := h.steps hmem (ha task htask)
        (Task.step_steps sessionId (env.now m.clock) (env.answer m.clock) m.session m.cache task)
      refine ⟨hcoh, hcache, fun task' htask' p hp => ?_⟩
      rcases List.mem_or_eq_of_mem_set htask' with htask' | rfl
      · exact hkeep p (h.held task' htask' p hp)
      · exact hheld p hp
  | fault i =>
    refine ⟨h.coherent, h.cached, fun task htask p hp => ?_⟩
    rcases mem_modify htask with htask | ⟨task', htask', rfl⟩
    · exact h.held task htask p hp
    · exact h.held task' htask' p (held_fault task' hp)
  | drop i =>
    refine ⟨h.coherent, h.cached, fun task htask p hp => ?_⟩
    rcases mem_modify htask with htask | ⟨task', htask', rfl⟩
    · exact h.held task htask p hp
    · cases hp
  | restart =>
    refine ⟨h.coherent, fun p hp => (nomatch hp), fun task htask p hp => ?_⟩
    obtain ⟨task', -, rfl⟩ := List.mem_map.mp htask
    cases hp

end Machine

end Piqo
