import PiqoServer.Storage.Forks

/-!
# The statements of a batch

`append_events` (`piqo-server/src/storage.rs`) as the statements it sends to SQLite one after the
other, each of which may fail. They see the tables of their transaction; a transaction that is
dropped without a commit is rolled back. Between the statements the events are applied to a copy of
the projection, in place: `SessionProjection::apply` may have written to it when it fails.

## Main definitions

* `SessionProjection.applyInPlace`: what `apply` leaves of its argument, also when it fails
* `Statement`, `Connection`: statements, and the tables with an open transaction
* `appendEventsTx`, `runAppendEvents`: the function as a program, and a run of it

## Main results

* `applyInPlace_eq`: in place or not, an event is accepted alike
* `run_perform`: without a failing statement the run does what `Store.appendEvents` does
* `runAppendEvents_error`: a run that fails leaves the store as it was
* `appendEvents_atomic`: a batch is stored as a whole and in order, or nothing changes
-/

namespace Piqo

/-! ## Applying an event in place -/

namespace SessionProjection

/-- What an event has written of the projection when it is refused. -/
def residue (p : SessionProjection) : SemanticEvent → SessionProjection
  | .agentSpawned agentId _ _ _ => { p with agents := p.agents.insert agentId .created }
  | .agentFinished agentId _ => { p with agents := p.agents.insert agentId .finished }
  | _ => p

/-- `SessionProjection::apply` on its argument. The state is written first, and it checks before
it writes. -/
def applyInPlace (p : SessionProjection) (eventId : Nat) (event : SemanticEvent) :
    SessionProjection × Except ProjectionError Unit :=
  match p.state.apply eventId event with
  | .error e => (p, .error e)
  | .ok state => match { p with state }.applyEvent eventId event with
    | .error e => ({ p with state }.residue event, .error e)
    | .ok q => (q, .ok ())

theorem applyInPlace_eq (p : SessionProjection) (eventId : Nat) (event : SemanticEvent) :
    (∀ q, p.apply eventId event = .ok q → p.applyInPlace eventId event = (q, .ok ())) ∧
      ∀ e, p.apply eventId event = .error e → (p.applyInPlace eventId event).2 = .error e := by
  unfold apply applyInPlace
  cases p.state.apply eventId event with
  | error e => simp [Except.bind]
  | ok state =>
    cases h : { p with state }.applyEvent eventId event with
    | error e => simp [Except.bind, h]
    | ok q => simp [Except.bind, h]

/-- A refused event may have changed the projection. -/
example : ∃ p : SessionProjection, ∃ e : SemanticEvent, (p.applyInPlace 1 e).2 ≠ .ok () ∧
    (p.applyInPlace 1 e).1 ≠ p :=
  ⟨.new "s", .agentFinished "a" none, by decide, by decide⟩

end SessionProjection

/-! ## Statements -/

/-- What `append_events` sends to SQLite, and its accesses to the projection cache. -/
inductive Statement where
  | cachedProjection (sessionId : String)
  | begin
  | selectEvents (sessionId : String)
  | allocateEventId (sessionId : String)
  | insertEvent (sessionId : String) (eventId : Nat) (occurredAt : String) (event : SemanticEvent)
  | updateRow (sessionId : String) (phase : SessionPhase) (revision : Nat) (updatedAt : String)
  | commit
  | cacheProjection (sessionId : String) (p : SessionProjection)

abbrev Statement.Result : Statement → Type
  | .cachedProjection _ => Option SessionProjection
  | .selectEvents _ => List (Nat × EventRow)
  | .allocateEventId _ => Option Nat
  | .begin | .commit | .insertEvent _ _ _ _ | .updateRow _ _ _ _ | .cacheProjection _ _ => Unit

abbrev statementSignature : Signature where
  Op := Statement
  Reply op := Except StoreError op.Result

/-- The committed tables and the cache, and the tables as an open transaction sees them. -/
structure Connection where
  store : Store
  tx : Option Database
  clock : Nat

/-- The rows of a session within a transaction. -/
def Database.updateSession (db : Database) (sessionId : String)
    (f : StoredSession → Except StoreError StoredSession) : Except StoreError Database :=
  match db.sessions.get? sessionId with
  | none => .ok db
  | some s => (f s).map fun s => { db with sessions := db.sessions.insert sessionId s }

namespace Connection

/-- The next statement. -/
def tick (c : Connection) : Connection := { c with clock := c.clock + 1 }

/-- A statement that writes within the transaction. -/
def write (c : Connection) (f : Database → Except StoreError Database) :
    Except StoreError Unit × Connection :=
  match c.tx with
  | none => (.error .database, c.tick)
  | some db => match f db with
    | .error e => (.error e, c.tick)
    | .ok db => (.ok (), { c.tick with tx := some db })

/-- A statement that is carried out. -/
def perform : (op : Statement) → Connection → Except StoreError op.Result × Connection
  | .cachedProjection sessionId, c => (.ok (c.store.projectionCache.get? sessionId), c.tick)
  | .begin, c => (.ok (), { c.tick with tx := some c.store.db })
  | .selectEvents sessionId, c => match c.tx with
    | none => (.error .database, c.tick)
    | some db =>
      (.ok (((db.sessions.get? sessionId).map (·.events.entries)).getD []), c.tick)
  | .allocateEventId sessionId, c => match c.tx with
    | none => (.error .database, c.tick)
    | some db => match db.sessions.get? sessionId with
      | none => (.ok none, c.tick)
      | some s =>
        let eventId := s.summary.lastEventId + 1
        (.ok (some eventId), { c.tick with tx := some { db with
          sessions := db.sessions.insert sessionId
            { s with summary := { s.summary with lastEventId := eventId } } } })
  | .insertEvent sessionId eventId occurredAt event, c =>
    c.write fun db => db.updateSession sessionId (·.insertEventRow eventId occurredAt event)
  | .updateRow sessionId phase revision updatedAt, c =>
    c.write fun db => db.updateSession sessionId fun s =>
      .ok { s with summary := { s.summary with phase, revision, updatedAt } }
  | .commit, c => match c.tx with
    | none => (.error .database, c.tick)
    | some db => (.ok (), { c.tick with store := { c.store with db }, tx := none })
  | .cacheProjection sessionId p, c =>
    (.ok (), { c.tick with store := { c.store with
      projectionCache := c.store.projectionCache.insert sessionId p } })

end Connection

/-- A statement goes to the database, unlike an access to the cache. -/
def Statement.sent : Statement → Bool
  | .cachedProjection _ | .cacheProjection _ _ => false
  | _ => true

/-- The statements with the numbers in `fails` fail. -/
def Connection.handle (fails : Nat → Bool) (op : Statement) (c : Connection) :
    Except StoreError op.Result × Connection :=
  if op.sent && fails c.clock then (.error .database, c.tick) else c.perform op

/-! ## The function -/

abbrev StatementProgram (α : Type) := Program statementSignature StoreError α

/-- A statement whose error ends the function. -/
def execute (op : Statement) : StatementProgram op.Result := .call op .ofExcept

/-- The next id of a session, from its row. -/
def allocateEventId (sessionId : String) : StatementProgram Nat := do
  match ← execute (.allocateEventId sessionId) with
  | some eventId => return eventId
  | none => .fail (.sessionNotFound sessionId)

/-- Apply an event to the copy; a copy that a refused event has changed is dropped. -/
def applyToCopy (p : SessionProjection) (eventId : Nat) (event : SemanticEvent) :
    StatementProgram SessionProjection :=
  match p.applyInPlace eventId event with
  | (p, .ok ()) => return p
  | (_, .error e) => .fail (.invalidTransition e)

/-- One event of the batch. -/
def appendOneTx (sessionId : String) (now : Nat → String) (p : SessionProjection)
    (event : SemanticEvent) : StatementProgram (SessionProjection × RecordedEvent) := do
  let eventId ← allocateEventId sessionId
  let p ← applyToCopy p eventId event
  execute (.insertEvent sessionId eventId (now eventId) event)
  execute (.updateRow sessionId p.state.phase p.state.revision (now eventId))
  return (p, { id := eventId, sessionId, schemaVersion := eventSchemaVersion
               occurredAt := now eventId, event })

/-- The events of the batch in turn. -/
def appendAllTx (sessionId : String) (now : Nat → String) : SessionProjection →
    List SemanticEvent → StatementProgram (SessionProjection × List RecordedEvent)
  | p, [] => return (p, [])
  | p, event :: events => do
    let (p, record) ← appendOneTx sessionId now p event
    let (p, records) ← appendAllTx sessionId now p events
    return (p, record :: records)

/-- The projection to start from: the cached one, or that of the events read. -/
def baseTx (sessionId : String) : Option SessionProjection → StatementProgram SessionProjection
  | some p => return p
  | none => do
    let rows ← execute (.selectEvents sessionId)
    .ofExcept ((recordedFromRows sessionId rows).bind (project sessionId))

/-- What comes before the commit. -/
def prepareTx (sessionId : String) (now : Nat → String) (events : List SemanticEvent) :
    StatementProgram (SessionProjection × List RecordedEvent) := do
  let cached ← execute (.cachedProjection sessionId)
  execute .begin
  let p ← baseTx sessionId cached
  appendAllTx sessionId now p events

def appendEventsTx (sessionId : String) (now : Nat → String) (events : List SemanticEvent) :
    StatementProgram (List RecordedEvent) :=
  if events = [] then return []
  else do
    let (p, records) ← prepareTx sessionId now events
    execute .commit
    execute (.cacheProjection sessionId p)
    return records

/-- A run of the function; a transaction that is still open at its end is rolled back. -/
def runAppendEvents (fails : Nat → Bool) (sessionId : String) (now : Nat → String)
    (events : List SemanticEvent) (store : Store) :
    Except StoreError (List RecordedEvent) × Store :=
  let r := (appendEventsTx sessionId now events).run (Connection.handle fails)
    { store, tx := none, clock := 0 }
  (r.1, r.2.store)

/-! ## A run without failing statements -/

/-- The tables with other rows of one session. -/
def Database.withSession (db : Database) (sessionId : String) (s : StoredSession) : Database :=
  { db with sessions := db.sessions.insert sessionId s }

@[simp] theorem Database.get?_withSession (db : Database) (sessionId : String) (s : StoredSession) :
    (db.withSession sessionId s).sessions.get? sessionId = some s :=
  SortedMap.get?_insert_self ..

theorem Database.withSession_self {db : Database} {sessionId : String} {s : StoredSession}
    (hs : db.sessions.get? sessionId = some s) : db.withSession sessionId s = db := by
  rw [withSession, SortedMap.insert_eq_self hs]

theorem Database.withSession_withSession (db : Database) (sessionId : String)
    (s s' : StoredSession) :
    (db.withSession sessionId s).withSession sessionId s' = db.withSession sessionId s' := by
  simp only [withSession, SortedMap.insert_insert]

section Run

variable {store : Store} {db : Database} {sessionId : String} {s : StoredSession} {n : Nat}

theorem perform_allocateEventId :
    Connection.perform (.allocateEventId sessionId) ⟨store, some (db.withSession sessionId s), n⟩ =
      (.ok (some (s.summary.lastEventId + 1)), ⟨store, some (db.withSession sessionId { s with
        summary := { s.summary with lastEventId := s.summary.lastEventId + 1 } }), n + 1⟩) := by
  have hrow := Database.withSession_withSession db sessionId s { s with
    summary := { s.summary with lastEventId := s.summary.lastEventId + 1 } }
  rw [← hrow]
  simp only [Connection.perform, Database.get?_withSession]
  rfl

theorem updateSession_withSession {f : StoredSession → Except StoreError StoredSession} :
    (db.withSession sessionId s).updateSession sessionId f =
      (f s).map fun s => db.withSession sessionId s := by
  simp only [Database.updateSession, Database.get?_withSession]
  refine congrArg (fun g => (f s).map g) (funext fun s' => ?_)
  exact Database.withSession_withSession db sessionId s s'

theorem write_withSession {f : StoredSession → Except StoreError StoredSession} :
    Connection.write ⟨store, some (db.withSession sessionId s), n⟩
      (fun db => db.updateSession sessionId f) = match f s with
        | .ok s => (.ok (), ⟨store, some (db.withSession sessionId s), n + 1⟩)
        | .error e => (.error e, ⟨store, some (db.withSession sessionId s), n + 1⟩) := by
  simp only [Connection.write, updateSession_withSession]
  cases f s <;> rfl

/-- A part of the function ends as `x` says, within the transaction. -/
structure Ends (store : Store) (db : Database) (sessionId : String) {α : Type}
    (r : Except StoreError α × Connection) (x : Except StoreError (StoredSession × α)) : Prop where
  outcome : r.1 = x.map Prod.snd
  store : r.2.store = store
  tx : ∀ s a, x = .ok (s, a) → r.2.tx = some (db.withSession sessionId s)

theorem Ends.error {α : Type} {e : StoreError} {c : Connection} (hstore : c.store = store) :
    Ends store db sessionId ((.error e : Except StoreError α), c) (.error e) :=
  ⟨rfl, hstore, by simp⟩

theorem Ends.ok {α : Type} {a : α} :
    Ends store db sessionId (.ok a, ⟨store, some (db.withSession sessionId s), n⟩) (.ok (s, a)) := by
  refine ⟨rfl, rfl, ?_⟩
  rintro s' a' h
  cases h
  rfl

/-- A part of the function, and what follows it in the transaction that the part leaves. -/
theorem Ends.bind {α β : Type} {p : StatementProgram α} {f : α → StatementProgram β}
    {c : Connection} {x : Except StoreError (StoredSession × α)}
    {y : StoredSession × α → Except StoreError (StoredSession × β)}
    (h : Ends store db sessionId (p.run Connection.perform c) x)
    (hf : ∀ s a n, x = .ok (s, a) → Ends store db sessionId
      ((f a).run Connection.perform ⟨store, some (db.withSession sessionId s), n⟩) (y (s, a))) :
    Ends store db sessionId ((p >>= f).run Connection.perform c) (x.bind y) := by
  rw [Program.run_bind]
  generalize p.run Connection.perform c = r at h
  obtain ⟨outcome, store', tx', clock⟩ := r
  have houtcome : outcome = x.map Prod.snd := h.outcome
  cases x with
  | error e =>
    subst houtcome
    exact .error h.store
  | ok result =>
    obtain ⟨s, a⟩ := result
    subst houtcome
    obtain rfl : store' = store := h.store
    obtain rfl : tx' = some (db.withSession sessionId s) := h.tx s a rfl
    exact hf s a clock rfl

theorem Ends.map {α β : Type} {p : StatementProgram α} {c : Connection}
    {x : Except StoreError (StoredSession × α)} (g : α → β)
    (h : Ends store db sessionId (p.run Connection.perform c) x) :
    Ends store db sessionId ((p >>= fun a => .ret (g a)).run Connection.perform c)
      (x.map fun r => (r.1, g r.2)) := by
  have hmap : (x.map fun r => (r.1, g r.2)) = x.bind fun r => .ok (r.1, g r.2) := by
    cases x <;> rfl
  rw [hmap]
  exact h.bind fun s a n _ => .ok

theorem run_execute {α : Type} (op : Statement) (f : op.Result → StatementProgram α)
    (c : Connection) : (execute op >>= f).run Connection.perform c =
      match Connection.perform op c with
      | (.ok a, c) => (f a).run Connection.perform c
      | (.error e, c) => (.error e, c) := by
  rw [execute, Program.call_bind, Program.run_call]
  rcases Connection.perform op c with ⟨e | a, c⟩ <;> rfl

theorem appendOneTx_ends (now : Nat → String) (p : SessionProjection) (event : SemanticEvent) :
    Ends store db sessionId
      ((appendOneTx sessionId now p event).run Connection.perform
        ⟨store, some (db.withSession sessionId s), n⟩)
      (s.appendOne sessionId now p event) := by
  obtain ⟨haccepted, hrefused⟩ := p.applyInPlace_eq (s.summary.lastEventId + 1) event
  rw [appendOneTx, allocateEventId, Program.bind_assoc, run_execute, perform_allocateEventId,
    StoredSession.appendOne]
  dsimp only
  rw [Program.pure_eq, Program.ret_bind]
  cases happly : p.apply (s.summary.lastEventId + 1) event with
  | error e =>
    have hcopy : applyToCopy p (s.summary.lastEventId + 1) event = .fail (.invalidTransition e) := by
      rw [applyToCopy, ← Prod.mk.eta (p := p.applyInPlace _ event), hrefused e happly]
    rw [hcopy]
    exact .error rfl
  | ok q =>
    have hcopy : applyToCopy p (s.summary.lastEventId + 1) event = .ret q := by
      rw [applyToCopy, haccepted q happly]
      rfl
    rw [hcopy, Program.ret_bind, run_execute, Connection.perform, write_withSession]
    simp only [Except.mapError, Except.bind]
    cases hinsert : StoredSession.insertEventRow _ (s.summary.lastEventId + 1)
      (now (s.summary.lastEventId + 1)) event with
    | error e => exact .error rfl
    | ok s' =>
      dsimp only
      rw [run_execute, Connection.perform, write_withSession]
      exact .ok

theorem appendAllTx_ends (now : Nat → String) (p : SessionProjection) (events : List SemanticEvent) :
    Ends store db sessionId
      ((appendAllTx sessionId now p events).run Connection.perform
        ⟨store, some (db.withSession sessionId s), n⟩)
      (StoredSession.appendAll sessionId now s p events) := by
  induction events generalizing s p n with
  | nil => exact .ok
  | cons event events ih =>
    refine (appendOneTx_ends now p event).bind fun s' result n' _ => ?_
    obtain ⟨q, record⟩ := result
    exact (ih q).map fun r => (r.1, record :: r.2)

theorem baseTx_ends (cached : Option SessionProjection) :
    Ends store db sessionId
      ((baseTx sessionId cached).run Connection.perform
        ⟨store, some (db.withSession sessionId s), n⟩)
      ((s.baseProjection sessionId cached).map fun p => (s, p)) := by
  cases cached with
  | some p => exact .ok
  | none =>
    rw [baseTx, run_execute]
    simp only [Connection.perform, Database.get?_withSession, Option.map_some, Option.getD_some,
      Program.run_ofExcept]
    change Ends store db sessionId (s.projected sessionId, _) _
    rw [StoredSession.baseProjection]
    cases s.projected sessionId with
    | error e => exact .error rfl
    | ok p => exact .ok

/-- What comes before the commit, for a session that exists. -/
theorem prepareTx_ends (now : Nat → String) (events : List SemanticEvent)
    (hs : store.db.sessions.get? sessionId = some s) :
    Ends store store.db sessionId
      ((prepareTx sessionId now events).run Connection.perform ⟨store, none, 0⟩)
      (s.append sessionId now (store.projectionCache.get? sessionId) events) := by
  have hbase := @baseTx_ends store store.db sessionId s 2 (store.projectionCache.get? sessionId)
  have happend : s.append sessionId now (store.projectionCache.get? sessionId) events =
      ((s.baseProjection sessionId (store.projectionCache.get? sessionId)).map fun p =>
        (s, p)).bind fun r => StoredSession.appendAll sessionId now r.1 r.2 events := by
    rw [StoredSession.append]
    cases s.baseProjection sessionId (store.projectionCache.get? sessionId) <;> rfl
  rw [prepareTx, run_execute]
  dsimp only [Connection.perform]
  rw [run_execute]
  dsimp only [Connection.perform, Connection.tick]
  rw [Database.withSession_self hs] at hbase
  rw [happend]
  exact hbase.bind fun s' p n' _ => appendAllTx_ends now p events

/-- A session that does not exist has neither a row nor events. -/
theorem prepareTx_missing (now : Nat → String) {events : List SemanticEvent} (hne : events ≠ [])
    (hs : store.db.sessions.get? sessionId = none) :
    ∃ c, (prepareTx sessionId now events).run Connection.perform ⟨store, none, 0⟩ =
      (match store.projectionCache.get? sessionId with
        | some _ => .error (.sessionNotFound sessionId)
        | none => .error (.corruptSession sessionId "session has no creation event"), c) ∧
      c.store = store := by
  rw [prepareTx, run_execute]
  dsimp only [Connection.perform]
  rw [run_execute]
  dsimp only [Connection.perform, Connection.tick]
  cases hcached : store.projectionCache.get? sessionId with
  | some p =>
    obtain ⟨event, events, rfl⟩ := List.exists_cons_of_ne_nil hne
    rw [baseTx, Program.pure_eq, Program.ret_bind, appendAllTx, appendOneTx, allocateEventId,
      Program.bind_assoc, Program.bind_assoc, run_execute]
    simp only [Connection.perform, hs]
    exact ⟨_, rfl, rfl⟩
  | none =>
    rw [baseTx, Program.bind_assoc, run_execute]
    simp only [Connection.perform, hs]
    exact ⟨_, rfl, rfl⟩

/-- The function without a failing statement does what the transaction of the model does. -/
theorem run_perform (store : Store) (sessionId : String) (now : Nat → String)
    (events : List SemanticEvent) :
    ∃ c, (appendEventsTx sessionId now events).run Connection.perform ⟨store, none, 0⟩ =
      ((store.appendEvents sessionId now events).1, c) ∧
      c.store = (store.appendEvents sessionId now events).2 := by
  unfold appendEventsTx Store.appendEvents
  split
  · exact ⟨_, rfl, rfl⟩
  next hne =>
  unfold Database.appendEvents
  rw [Program.run_bind]
  cases hs : store.db.sessions.get? sessionId with
  | none =>
    obtain ⟨c, hrun, hstore⟩ := prepareTx_missing now hne hs
    rw [hrun]
    cases store.projectionCache.get? sessionId <;> exact ⟨c, rfl, hstore⟩
  | some s =>
    have hends := prepareTx_ends now events hs
    generalize (prepareTx sessionId now events).run _ _ = r at hends
    obtain ⟨outcome, store', tx, clock⟩ := r
    obtain rfl : store' = store := hends.store
    have houtcome : outcome = _ := hends.outcome
    dsimp only
    cases happend : s.append sessionId now (store'.projectionCache.get? sessionId) events with
    | error e =>
      rw [happend] at houtcome
      subst houtcome
      exact ⟨_, rfl, rfl⟩
    | ok result =>
      obtain ⟨s', q, records⟩ := result
      rw [happend] at houtcome
      subst houtcome
      obtain rfl : tx = some (store'.db.withSession sessionId s') := hends.tx s' _ happend
      exact ⟨_, rfl, rfl⟩

end Run

/-! ## Failing statements -/

/-- The statements a run sends, each with the connection it is sent on. -/
def runStatements (fails : Nat → Bool) (sessionId : String) (now : Nat → String)
    (events : List SemanticEvent) (store : Store) : List (Connection × Statement) :=
  (appendEventsTx sessionId now events).calls (Connection.handle fails)
    { store, tx := none, clock := 0 }

/-- The reply to a statement is an error. -/
def Statement.failed (op : Statement) (reply : Except StoreError op.Result) : Bool :=
  match reply with
  | .ok _ => false
  | .error _ => true

theorem handle_of_not_failed {fails : Nat → Bool} {op : Statement} {c : Connection}
    (h : op.failed (Connection.handle fails op c).1 = false) :
    c.perform op = Connection.handle fails op c := by
  unfold Connection.handle at h ⊢
  split at h
  · cases h
  next hfails => rw [if_neg hfails]

theorem handle_of_not_sent {fails : Nat → Bool} {op : Statement} {c : Connection}
    (h : op.sent = false) : Connection.handle fails op c = c.perform op := by
  rw [Connection.handle, h]
  rfl

/-- Before the commit the committed tables are not written, and neither is the cache. -/
def Statement.staged : Statement → Prop
  | .commit | .cacheProjection _ _ => False
  | _ => True

theorem Connection.write_store (c : Connection) (f : Database → Except StoreError Database) :
    (c.write f).2.store = c.store := by
  unfold write
  split
  · rfl
  · split <;> rfl

theorem handle_staged {fails : Nat → Bool} {op : Statement} (hop : op.staged) (c : Connection) :
    (Connection.handle fails op c).2.store = c.store := by
  unfold Connection.handle
  split
  · rfl
  cases op with
  | cachedProjection sessionId => rfl
  | begin => rfl
  | selectEvents sessionId =>
    rw [Connection.perform]
    split <;> rfl
  | allocateEventId sessionId =>
    rw [Connection.perform]
    split
    · rfl
    · split <;> rfl
  | insertEvent sessionId eventId occurredAt event => exact c.write_store _
  | updateRow sessionId phase revision updatedAt => exact c.write_store _
  | commit => exact hop.elim
  | cacheProjection sessionId p => exact hop.elim

theorem execute_staged {op : Statement} (hop : op.staged) :
    (execute op).Only Statement.staged :=
  .call hop fun reply => .ofExcept reply

theorem appendOneTx_staged (sessionId : String) (now : Nat → String) (p : SessionProjection)
    (event : SemanticEvent) : (appendOneTx sessionId now p event).Only Statement.staged := by
  refine .bind ?_ fun eventId => .bind ?_ fun p => .bind (execute_staged trivial) fun _ =>
    .bind (execute_staged trivial) fun _ => .ret _
  · refine .bind (execute_staged trivial) fun row => ?_
    cases row with
    | none => exact .fail _
    | some eventId => exact .ret _
  · unfold applyToCopy
    split
    · exact .ret _
    · exact .fail _

theorem appendAllTx_staged (sessionId : String) (now : Nat → String) (p : SessionProjection)
    (events : List SemanticEvent) :
    (appendAllTx sessionId now p events).Only Statement.staged := by
  induction events generalizing p with
  | nil => exact .ret _
  | cons event events ih =>
    exact .bind (appendOneTx_staged sessionId now p event) fun r => .bind (ih r.1) fun _ => .ret _

theorem prepareTx_staged (sessionId : String) (now : Nat → String) (events : List SemanticEvent) :
    (prepareTx sessionId now events).Only Statement.staged := by
  refine .bind (execute_staged trivial) fun cached => .bind (execute_staged trivial) fun _ =>
    .bind ?_ fun p => appendAllTx_staged sessionId now p events
  cases cached with
  | some p => exact .ret _
  | none => exact .bind (execute_staged trivial) fun rows => .ofExcept _

theorem run_prepareTx_store (fails : Nat → Bool) (sessionId : String) (now : Nat → String)
    (events : List SemanticEvent) (c : Connection) :
    ((prepareTx sessionId now events).run (Connection.handle fails) c).2.store = c.store := by
  obtain ⟨-, h, -⟩ := (prepareTx_staged sessionId now events).run (R := fun _ c' => c'.store = c.store)
    (fun _ op c' hc' hop => (handle_staged hop c').trans hc') rfl
  exact h

theorem run_execute_handle {α : Type} (fails : Nat → Bool) (op : Statement)
    (f : op.Result → StatementProgram α) (c : Connection) :
    (execute op >>= f).run (Connection.handle fails) c =
      match Connection.handle fails op c with
      | (.ok a, c) => (f a).run (Connection.handle fails) c
      | (.error e, c) => (.error e, c) := by
  rw [execute, Program.call_bind, Program.run_call]
  rcases Connection.handle fails op c with ⟨e | a, c⟩ <;> rfl

/-- A commit that fails has not committed. -/
theorem handle_commit_error {fails : Nat → Bool} {c c' : Connection} {e : StoreError}
    (h : Connection.handle fails .commit c = (.error e, c')) : c'.store = c.store := by
  unfold Connection.handle at h
  split at h
  · cases h
    rfl
  · rw [Connection.perform] at h
    split at h <;> cases h
    rfl

/-- **A run that fails leaves the store as it was**, wherever it fails. -/
theorem runAppendEvents_error {fails : Nat → Bool} {sessionId : String} {now : Nat → String}
    {events : List SemanticEvent} {store : Store} {e : StoreError}
    (h : (runAppendEvents fails sessionId now events store).1 = .error e) :
    (runAppendEvents fails sessionId now events store).2 = store := by
  have hprepare := run_prepareTx_store fails sessionId now events ⟨store, none, 0⟩
  simp only [runAppendEvents, appendEventsTx] at h ⊢
  by_cases hnil : events = []
  · rw [if_pos hnil] at h
    cases h
  rw [if_neg hnil, Program.run_bind] at h ⊢
  generalize (prepareTx sessionId now events).run _ _ = r at h hprepare ⊢
  obtain ⟨_ | ⟨p, records⟩, c⟩ := r
  · exact hprepare
  obtain rfl : c.store = store := hprepare
  dsimp only at h ⊢
  rw [run_execute_handle] at h ⊢
  rcases hcommit : Connection.handle fails .commit c with ⟨_ | _, c'⟩
  · exact handle_commit_error hcommit
  · -- the cache is written in memory, which does not fail
    rw [hcommit] at h
    dsimp only at h
    rw [run_execute_handle, handle_of_not_sent rfl] at h
    cases h

/-! ### A statement that fails ends the function -/

abbrev StatementProgram.Aborts {α : Type} (p : StatementProgram α) : Prop :=
  p.AbortsOn Statement.failed (· ≠ .database)

theorem execute_aborts (op : Statement) : (execute op).Aborts := by
  intro reply
  cases reply with
  | error e => exact ⟨e, rfl⟩
  | ok a => trivial

theorem appendOneTx_aborts (sessionId : String) (now : Nat → String) (p : SessionProjection)
    (event : SemanticEvent) : (appendOneTx sessionId now p event).Aborts := by
  refine .bind ?_ fun eventId => .bind ?_ fun p => .bind (execute_aborts _) fun _ =>
    .bind (execute_aborts _) fun _ => trivial
  · refine .bind (execute_aborts _) fun row => ?_
    cases row with
    | none => exact StoreError.noConfusion
    | some eventId => trivial
  · unfold applyToCopy
    split
    · trivial
    · exact StoreError.noConfusion

theorem appendAllTx_aborts (sessionId : String) (now : Nat → String) (p : SessionProjection)
    (events : List SemanticEvent) : (appendAllTx sessionId now p events).Aborts := by
  induction events generalizing p with
  | nil => trivial
  | cons event events ih =>
    exact .bind (appendOneTx_aborts sessionId now p event) fun r => .bind (ih r.1) fun _ => trivial

theorem recordedFromRows_error {sessionId : String} {rows : List (Nat × EventRow)} {e : StoreError}
    (h : recordedFromRows sessionId rows = .error e) : e ≠ .database := by
  induction rows generalizing e with
  | nil => cases h
  | cons row rows ih =>
    rw [recordedFromRows, recordedFromRow] at h
    split at h
    · cases h
      simp
    · cases hrows : recordedFromRows sessionId rows with
      | error e' =>
        rw [hrows] at h
        cases h
        exact ih hrows
      | ok records =>
        rw [hrows] at h
        cases h

theorem replayFrom_error {sessionId : String} {expected : Nat} {p : SessionProjection}
    {events : List RecordedEvent} {e : StoreError}
    (h : replayFrom sessionId expected p events = .error e) : e ≠ .database := by
  induction events generalizing expected p with
  | nil => cases h
  | cons event events ih =>
    rw [replayFrom] at h
    split at h
    · cases h
      simp
    · cases happly : p.apply event.id event.event with
      | error e' =>
        rw [happly] at h
        cases h
        simp
      | ok q =>
        rw [happly] at h
        exact ih h

theorem project_error {sessionId : String} {events : List RecordedEvent} {e : StoreError}
    (h : project sessionId events = .error e) : e ≠ .database := by
  rw [project] at h
  cases hreplay : replayFrom sessionId 1 (.new sessionId) events with
  | error e' =>
    rw [hreplay] at h
    cases h
    exact replayFrom_error hreplay
  | ok p =>
    simp only [hreplay, Except.bind] at h
    split at h <;> cases h
    simp

theorem appendEventsTx_aborts (sessionId : String) (now : Nat → String)
    (events : List SemanticEvent) : (appendEventsTx sessionId now events).Aborts := by
  unfold appendEventsTx
  split
  · trivial
  refine .bind ?_ fun r => .bind (execute_aborts _) fun _ => .bind (execute_aborts _) fun _ =>
    trivial
  refine .bind (execute_aborts _) fun cached => .bind (execute_aborts _) fun _ =>
    .bind ?_ fun p => appendAllTx_aborts sessionId now p events
  cases cached with
  | some p => trivial
  | none =>
    refine .bind (execute_aborts _) fun rows => Program.abortsOn_ofExcept fun e he => ?_
    cases hrows : recordedFromRows sessionId rows with
    | error e' =>
      rw [hrows] at he
      cases he
      exact recordedFromRows_error hrows
    | ok records =>
      rw [hrows] at he
      exact project_error he

/-! ### A run of which no statement fails -/

section NoFailure

variable {fails : Nat → Bool} {sessionId : String} {now : Nat → String}
  {events : List SemanticEvent} {store : Store}

/-- No statement of a run fails. -/
def NoneFails (fails : Nat → Bool) (sessionId : String) (now : Nat → String)
    (events : List SemanticEvent) (store : Store) : Prop :=
  ∀ c ∈ runStatements fails sessionId now events store,
    c.2.failed (Connection.handle fails c.2 c.1).1 = false

theorem runAppendEvents_of_noneFails (h : NoneFails fails sessionId now events store) :
    runAppendEvents fails sessionId now events store =
      store.appendEvents sessionId now events := by
  have hrun : (appendEventsTx sessionId now events).run Connection.perform ⟨store, none, 0⟩ =
      (appendEventsTx sessionId now events).run (Connection.handle fails) ⟨store, none, 0⟩ :=
    Program.run_congr _ fun c hc => handle_of_not_failed (h c hc)
  obtain ⟨c, hperform, hstore⟩ := run_perform store sessionId now events
  unfold runAppendEvents
  rw [← hrun, hperform]
  exact Prod.ext rfl hstore

/-- A run that succeeds has no failing statement. -/
theorem noneFails_of_ok {records : List RecordedEvent}
    (h : (runAppendEvents fails sessionId now events store).1 = .ok records) :
    NoneFails fails sessionId now events store := by
  intro c hc
  by_contra hfailed
  obtain ⟨e, he⟩ := ((appendEventsTx_aborts sessionId now events).run _).1 c hc
    (Bool.eq_true_of_not_eq_false hfailed)
  have herror : (runAppendEvents fails sessionId now events store).1 = .error e := he
  rw [h] at herror
  cases herror

/-- Without a failing statement the errors are those of the function itself. -/
theorem NoneFails.ne_database (hnone : NoneFails fails sessionId now events store)
    {e : StoreError} (h : (runAppendEvents fails sessionId now events store).1 = .error e) :
    e ≠ .database :=
  ((appendEventsTx_aborts sessionId now events).run _).2 hnone e h

end NoFailure

/-! ## What a batch leaves -/

namespace StoredSession

variable {s s' : StoredSession} {sessionId : String} {now : Nat → String}
  {p q : SessionProjection} {event : SemanticEvent} {events : List SemanticEvent}
  {record : RecordedEvent} {records : List RecordedEvent}

/-- The session with a batch behind its events: consecutive ids follow the last one of the row, and
the row is that of the projection `q` after the batch. -/
structure Extended (s : StoredSession) (now : Nat → String) (events : List SemanticEvent)
    (q : SessionProjection) (s' : StoredSession) : Prop where
  stored : ∀ k (h : k < events.length), s'.events.get? (s.summary.lastEventId + 1 + k) =
    some (rowOf now (s.summary.lastEventId + 1 + k) events[k]).2
  others : ∀ id, id ≤ s.summary.lastEventId ∨ s.summary.lastEventId + events.length < id →
    s'.events.get? id = s.events.get? id
  row : s'.summary = { s.summary with
    phase := q.state.phase, revision := q.state.revision
    lastEventId := s.summary.lastEventId + events.length
    updatedAt := now (s.summary.lastEventId + events.length) }

theorem appendOne_extended (h : s.appendOne sessionId now p event = .ok (s', q, record)) :
    p.apply (s.summary.lastEventId + 1) event = .ok q ∧ s.Extended now [event] q s' ∧
      record = returnedOf sessionId now (s.summary.lastEventId + 1) event := by
  simp only [StoredSession.appendOne, Except.bind_eq_ok, Except.mapError_eq_ok, insertEventRow,
    Except.ite_error_eq_ok, Except.ok.injEq, Prod.mk.injEq] at h
  obtain ⟨q', happly, s₁, ⟨-, rfl⟩, rfl, rfl, rfl⟩ := h
  refine ⟨happly, ⟨fun k hk => ?_, fun id hid => ?_, rfl⟩, rfl⟩
  · obtain rfl : k = 0 := by simpa using hk
    exact SortedMap.get?_insert_self ..
  · refine SortedMap.get?_insert_of_ne _ _ ?_
    simp only [List.length_singleton] at hid
    omega

/-- A batch behind an event. -/
theorem Extended.cons {s₁ : StoredSession} {p₁ : SessionProjection}
    (hone : s.Extended now [event] p₁ s₁) (h : s₁.Extended now events q s') :
    s.Extended now (event :: events) q s' := by
  have hlast : s₁.summary.lastEventId = s.summary.lastEventId + 1 := by
    rw [hone.row]
    rfl
  refine ⟨fun k hk => ?_, fun id hid => ?_, ?_⟩
  · cases k with
    | zero =>
      rw [h.others _ (.inl (by omega))]
      exact hone.stored 0 (by simp)
    | succ k =>
      have hrest := h.stored k (by simpa using hk)
      rw [hlast] at hrest
      have hid : s.summary.lastEventId + 1 + (k + 1) = s.summary.lastEventId + 1 + 1 + k := by omega
      rw [hid]
      exact hrest
  · rw [List.length_cons] at hid
    rw [h.others id (by omega), hone.others id (by rw [List.length_singleton]; omega)]
  · have hlength : s.summary.lastEventId + 1 + events.length =
        s.summary.lastEventId + (event :: events).length := by
      rw [List.length_cons]
      omega
    rw [h.row, hlast, hlength, hone.row]

theorem appendAll_extended (hne : events ≠ [])
    (h : appendAll sessionId now s p events = .ok (s', q, records)) :
    p.applyLog (numbered (s.summary.lastEventId + 1) events) = .ok q ∧
      s.Extended now events q s' ∧
      records = (numbered (s.summary.lastEventId + 1) events).map
        (fun e => returnedOf sessionId now e.1 e.2) := by
  induction events generalizing s p records with
  | nil => exact absurd rfl hne
  | cons event events ih =>
    obtain ⟨s₁, p₁, record, records', hone, hall, hrecords⟩ := appendAll_cons_eq_ok.mp h
    obtain ⟨happly, hextended, hrecord⟩ := appendOne_extended hone
    have hlast : s₁.summary.lastEventId = s.summary.lastEventId + 1 := by
      rw [hextended.row]
      rfl
    simp only at hrecords hall
    rw [numbered_cons, SessionProjection.applyLog_cons_eq_ok, List.map_cons, hrecords, hrecord]
    by_cases hnil : events = []
    · subst hnil
      cases hall
      exact ⟨⟨q, happly, rfl⟩, hextended, rfl⟩
    · obtain ⟨hlog, hextended', hrecords'⟩ := ih hnil hall
      rw [hlast] at hlog hrecords'
      exact ⟨⟨p₁, happly, hlog⟩, hextended.cons hextended', by rw [hrecords']⟩

theorem appendOne_error {e : StoreError} (h : s.appendOne sessionId now p event = .error e) :
    e = .database ∨ ∃ refusal, p.apply (s.summary.lastEventId + 1) event = .error refusal := by
  rw [appendOne] at h
  cases happly : p.apply (s.summary.lastEventId + 1) event with
  | error refusal => exact .inr ⟨refusal, rfl⟩
  | ok p₁ =>
    simp only [happly, Except.mapError, Except.bind, insertEventRow] at h
    split at h
    · next hinsert =>
      split at hinsert <;> cases hinsert
      cases h
      exact .inl rfl
    · cases h

/-- A batch fails with the refusal of an event, or because its id is taken. -/
theorem appendAll_error {e : StoreError} (h : appendAll sessionId now s p events = .error e) :
    e = .database ∨ ∃ refusal,
      p.applyLog (numbered (s.summary.lastEventId + 1) events) = .error refusal := by
  induction events generalizing s p with
  | nil => cases h
  | cons event events ih =>
    rw [numbered_cons, SessionProjection.applyLog]
    rw [appendAll] at h
    cases hone : s.appendOne sessionId now p event with
    | error e' =>
      rw [hone] at h
      cases h
      refine (appendOne_error hone).imp_right ?_
      rintro ⟨refusal, hrefusal⟩
      exact ⟨refusal, by rw [hrefusal]; rfl⟩
    | ok result =>
      obtain ⟨s₁, p₁, record⟩ := result
      obtain ⟨happly, hextended, -⟩ := appendOne_extended hone
      have hlast : s₁.summary.lastEventId = s.summary.lastEventId + 1 := by
        rw [hextended.row]
        rfl
      rw [hone] at h
      rw [happly, ← hlast]
      refine ih ?_
      simp only [Except.bind] at h
      cases hrest : appendAll sessionId now s₁ p₁ events with
      | error e' =>
        rw [hrest] at h
        exact h
      | ok result =>
        rw [hrest] at h
        cases h

end StoredSession

/-! ## All or nothing -/

section Atomic

variable (fails : Nat → Bool) (sessionId : String) (now : Nat → String)
  (events : List SemanticEvent) (store : Store)

/-- Every event of the batch is accepted in turn, from the projection `p` that the function starts
from to `q`. -/
def Accepts (p q : SessionProjection) (s : StoredSession) : Prop :=
  s.baseProjection sessionId (store.projectionCache.get? sessionId) = .ok p ∧
    p.applyLog (numbered (s.summary.lastEventId + 1) events) = .ok q

/-- The store with a batch behind the events of a session. -/
structure BatchStored (records : List RecordedEvent) (store' : Store) : Prop where
  exists_session : ∃ s s' p q, store.db.sessions.get? sessionId = some s ∧
    Accepts sessionId events store p q s ∧ s.Extended now events q s' ∧
    records = (numbered (s.summary.lastEventId + 1) events).map
      (fun e => StoredSession.returnedOf sessionId now e.1 e.2) ∧
    store' = {
      db := { store.db with sessions := store.db.sessions.insert sessionId s' }
      projectionCache := store.projectionCache.insert sessionId q }

variable {fails sessionId now events store}

theorem Store.appendEvents_stored {records : List RecordedEvent} {store' : Store}
    (hne : events ≠ []) (h : store.appendEvents sessionId now events = (.ok records, store')) :
    BatchStored sessionId now events store records store' := by
  rw [Store.appendEvents, if_neg hne] at h
  unfold Database.appendEvents at h
  cases hs : store.db.sessions.get? sessionId with
  | none =>
    rw [hs] at h
    cases hcached : store.projectionCache.get? sessionId <;> rw [hcached] at h <;> cases h
  | some s =>
    simp only [hs, StoredSession.append] at h
    cases hbase : s.baseProjection sessionId (store.projectionCache.get? sessionId) with
    | error e =>
      rw [hbase] at h
      cases h
    | ok p =>
      simp only [hbase, Except.bind] at h
      cases hall : StoredSession.appendAll sessionId now s p events with
      | error e =>
        rw [hall] at h
        cases h
      | ok result =>
        obtain ⟨s', q, records'⟩ := result
        rw [hall] at h
        cases h
        obtain ⟨hlog, hextended, hrecords⟩ := StoredSession.appendAll_extended hne hall
        exact ⟨s, s', p, q, hs, ⟨hbase, hlog⟩, hextended, hrecords, rfl⟩

theorem Store.appendEvents_refused {e : StoreError} {s : StoredSession} {p q : SessionProjection}
    (h : (store.appendEvents sessionId now events).1 = .error e)
    (hs : store.db.sessions.get? sessionId = some s)
    (haccepts : Accepts sessionId events store p q s) : e = .database := by
  by_cases hne : events = []
  · rw [Store.appendEvents, if_pos hne] at h
    cases h
  rw [Store.appendEvents, if_neg hne] at h
  unfold Database.appendEvents at h
  simp only [hs, StoredSession.append, haccepts.1, Except.bind] at h
  cases hall : StoredSession.appendAll sessionId now s p events with
  | ok result =>
    rw [hall] at h
    cases h
  | error e' =>
    rw [hall] at h
    cases h
    rcases StoredSession.appendAll_error hall with he | ⟨refusal, hrefusal⟩
    · exact he
    · rw [haccepts.2] at hrefusal
      cases hrefusal

/-- **A batch is stored as a whole and in order, or nothing changes.** It is an error, with the
whole store as before, when a statement fails, when the session does not exist or cannot be read,
and when the projection refuses an event of the batch; otherwise the events are stored under
consecutive ids, with the row and the cache entry of the projection after them. -/
theorem appendEvents_atomic (fails : Nat → Bool) (sessionId : String) (now : Nat → String)
    (events : List SemanticEvent) (store : Store) :
    let r := runAppendEvents fails sessionId now events store
    ((∃ e, r.1 = .error e ∧ r.2 = store) ∨ (events = [] ∧ r = (.ok [], store)) ∨
      ∃ records, r.1 = .ok records ∧ BatchStored sessionId now events store records r.2) ∧
    ((∃ e, r.1 = .error e) ↔ events ≠ [] ∧
      (¬ NoneFails fails sessionId now events store ∨
        ¬ ∃ s p q, store.db.sessions.get? sessionId = some s ∧
          Accepts sessionId events store p q s)) := by
  dsimp only
  by_cases hne : events = []
  · have hr : runAppendEvents fails sessionId now events store = (.ok [], store) := by
      rw [runAppendEvents, appendEventsTx, if_pos hne]
      rfl
    rw [hr]
    exact ⟨.inr (.inl ⟨hne, rfl⟩), iff_of_false (by simp) fun h => h.1 hne⟩
  cases hr : (runAppendEvents fails sessionId now events store).1 with
  | error e =>
    refine ⟨.inl ⟨e, rfl, runAppendEvents_error hr⟩, iff_of_true ⟨e, rfl⟩ ⟨hne, ?_⟩⟩
    by_contra hboth
    rw [not_or, not_not, not_not] at hboth
    obtain ⟨hnone, s, p, q, hs, haccepts⟩ := hboth
    have hne_database := hnone.ne_database hr
    rw [runAppendEvents_of_noneFails hnone] at hr
    exact hne_database (Store.appendEvents_refused hr hs haccepts)
  | ok records =>
    have hnone := noneFails_of_ok hr
    have hstore := runAppendEvents_of_noneFails hnone
    have happended : BatchStored sessionId now events store records
        (runAppendEvents fails sessionId now events store).2 := by
      refine Store.appendEvents_stored hne ?_
      rw [← hstore, ← hr]
    obtain ⟨s, s', p, q, hs, haccepts, -⟩ := happended.exists_session
    refine ⟨.inr (.inr ⟨records, rfl, happended⟩), iff_of_false (by simp) ?_⟩
    rintro ⟨-, hfails | hrefused⟩
    · exact hfails hnone
    · exact hrefused ⟨s, p, q, hs, haccepts⟩

end Atomic

end Piqo
