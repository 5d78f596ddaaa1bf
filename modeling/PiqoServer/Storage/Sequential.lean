import PiqoServer.Storage.Operations

/-!
# One operation at a time

Four operations maintain the row of a session by different code. As long as they run one after
the other, every row agrees with its log, and a cached projection is the one of the log up to
reloading, so an append that starts from the cache is as good as one that starts from the log.

## Main definitions

* `Store.Sound`: every row agrees with its log, every cached projection with its log
* `StoreCommand`, `Store.execute`: the operations that write session rows

## Main results

* `Sound.execute`: each operation preserves `Sound`
* `executeAll_valid`: after any sequence of operations the store reopens
-/

namespace Piqo

/-! ## Forks -/

theorem replayFrom_rename {sessionId : String} (sessionId' : String) {n : Nat}
    {p q : SessionProjection} {rows : List (Nat × EventRow)}
    (h : replayFrom sessionId n p (rows.map (recordOf sessionId)) = .ok q) :
    replayFrom sessionId' n (p.rename sessionId') (rows.map (recordOf sessionId')) =
      .ok (q.rename sessionId') := by
  induction rows generalizing n p with
  | nil => cases h; rfl
  | cons row rows ih =>
    obtain ⟨hid, hversion, p', hp', hrest⟩ := replayFrom_cons_eq_ok.mp h
    exact replayFrom_cons_eq_ok.mpr
      ⟨hid, hversion, _, SessionProjection.apply_rename sessionId' hp', ih hrest⟩

theorem project_rename {sessionId : String} (sessionId' : String) {q : SessionProjection}
    {rows : List (Nat × EventRow)} (h : project sessionId (rows.map (recordOf sessionId)) = .ok q) :
    project sessionId' (rows.map (recordOf sessionId')) = .ok (q.rename sessionId') := by
  obtain ⟨hne, hreplay⟩ := project_eq_ok.mp h
  refine project_eq_ok.mpr ⟨by simpa using hne, ?_⟩
  exact replayFrom_rename sessionId' hreplay

namespace StoredSession

variable {s s' : StoredSession} {sessionId createdAt : String} {p : SessionProjection}

/-- A branch event is appended like any other, under the id of the branch. -/
theorem appendBranch_cons (sessionId : String) {event : SemanticEvent} {events : List SemanticEvent}
    (h : appendBranch createdAt s p (s.summary.lastEventId + 1) (event :: events) = .ok s') :
    ∃ s₁ p₁ record,
      s.appendOne sessionId (fun _ => createdAt) (p.rename sessionId) event =
        .ok (s₁, p₁.rename sessionId, record) ∧
      appendBranch createdAt s₁ p₁ (s₁.summary.lastEventId + 1) events = .ok s' := by
  simp only [appendBranch, Except.bind_eq_ok, Except.mapError_eq_ok] at h
  obtain ⟨p₁, happly, s₁, hinsert, hrest⟩ := h
  obtain ⟨hfree, hs₁⟩ := Except.ite_error_eq_ok.mp hinsert
  cases hs₁
  refine ⟨_, p₁, returnedOf sessionId (fun _ => createdAt) (s.summary.lastEventId + 1) event,
    ?_, hrest⟩
  simp only [StoredSession.appendOne, SessionProjection.apply_rename sessionId happly,
    insertEventRow, if_neg hfree]
  rfl

theorem Coherent.appendBranch {events : List SemanticEvent}
    (h : s.Coherent sessionId (p.rename sessionId).reload)
    (happ : StoredSession.appendBranch createdAt s p (s.summary.lastEventId + 1) events = .ok s') :
    ∃ q, s'.Coherent sessionId q := by
  induction events generalizing s p with
  | nil =>
    cases happ
    exact ⟨_, h⟩
  | cons event events ih =>
    obtain ⟨s₁, p₁, record, hone, hrest⟩ := appendBranch_cons sessionId happ
    exact ih (h.appendOne hone) hrest

end StoredSession

/-! ## The invariant -/

namespace Store

variable {store : Store}

/-- Every row agrees with its log, and every cached projection with its log. -/
structure Sound (store : Store) : Prop where
  coherent : ∀ {id s}, store.db.sessions.get? id = some s → ∃ p, s.Coherent id p
  cached : ∀ {id p}, store.projectionCache.get? id = some p →
    ∃ s, store.db.sessions.get? id = some s ∧ s.Coherent id p.reload

theorem Sound.empty (projects : SortedMap String Project) :
    (ofDatabase (.empty projects)).Sound where
  coherent h := by simp [ofDatabase, Database.empty] at h
  cached h := by simp [ofDatabase] at h

/-- Writing the rows of one session coherently, with the cache of that session untouched or set
to the projection of the new log. -/
theorem Sound.insert (h : store.Sound) {id : String} {s : StoredSession} {db : Database}
    {p : SessionProjection} {cache : SortedMap String SessionProjection}
    (hs : s.Coherent id p.reload) (hdb : db.sessions = store.db.sessions.insert id s)
    (hcache : cache = store.projectionCache.insert id p) :
    Sound { db, projectionCache := cache } where
  coherent := by
    intro id' s' hget
    rw [hdb, SortedMap.get?_insert] at hget
    split at hget
    · next heq =>
      cases hget
      exact heq ▸ ⟨_, hs⟩
    · exact h.coherent hget
  cached := by
    intro id' p' hget
    by_cases heq : id' = id
    · subst heq
      rw [hcache, SortedMap.get?_insert_self] at hget
      cases hget
      exact ⟨s, by rw [hdb, SortedMap.get?_insert_self], hs⟩
    · rw [hcache, SortedMap.get?_insert_of_ne _ _ heq] at hget
      rw [hdb, SortedMap.get?_insert_of_ne _ _ heq]
      exact h.cached hget

/-- Adding the coherent rows of a new session. -/
theorem Sound.insert_new (h : store.Sound) {id : String} {s : StoredSession} {db : Database}
    (hs : ∃ p, s.Coherent id p) (hnew : store.db.sessions.get? id = none)
    (hdb : db.sessions = store.db.sessions.insert id s) : Sound { store with db } where
  coherent := by
    intro id' s' hget
    rw [hdb, SortedMap.get?_insert] at hget
    split at hget
    · next heq =>
      cases hget
      exact heq ▸ hs
    · exact h.coherent hget
  cached := by
    intro id' p hget
    obtain ⟨s', hs', hcoh⟩ := h.cached hget
    have hne : id' ≠ id := by
      rintro rfl
      rw [hnew] at hs'
      cases hs'
    exact ⟨s', by rw [hdb, SortedMap.get?_insert_of_ne _ _ hne, hs'], hcoh⟩

theorem Sound.transact (h : store.Sound) {tx : Database → Except StoreError Database}
    (htx : ∀ db, tx store.db = .ok db → Sound { store with db }) : (store.transact tx).2.Sound := by
  unfold Store.transact
  split
  · next db hdb => exact htx db hdb
  · exact h

/-! ## The operations -/

theorem Sound.createSession (h : store.Sound) (id now : String) (title projectId : Option String)
    (retention : HistoryRetention) {db : Database}
    (hdb : store.db.createSessionWithRetention id now title projectId retention = .ok db) :
    Sound { store with db } := by
  obtain ⟨-, -, hinsert⟩ := Except.bind_eq_ok.mp hdb
  obtain ⟨hnew, hrows⟩ := Except.ite_error_eq_ok.mp hinsert
  obtain ⟨s, hs, rfl⟩ := Except.map_eq_ok.mp hrows
  obtain ⟨-, hs⟩ := Except.ite_error_eq_ok.mp hs
  cases hs
  refine h.insert_new ⟨{ SessionProjection.new id with
    state := { SessionState.new id with lastEventId := some 1 } }, ?_⟩
    (by simpa [SortedMap.contains_eq_false_iff] using hnew) rfl
  exact { projected := rfl, phase := rfl, revision := rfl, lastEventId := rfl }

theorem Sound.appendEvents (h : store.Sound) (sessionId : String) (now : Nat → String)
    (events : List SemanticEvent) : (store.appendEvents sessionId now events).2.Sound := by
  by_cases hnil : events = []
  · simpa only [Store.appendEvents, if_pos hnil] using h
  simp only [Store.appendEvents, if_neg hnil]
  split
  swap
  · exact h
  next db p records happ =>
  unfold Database.appendEvents at happ
  split at happ
  · next s hs =>
    obtain ⟨⟨s', q, records'⟩, hall, heq⟩ := Except.map_eq_ok.mp happ
    cases heq
    obtain ⟨base, hbase, hall⟩ := Except.bind_eq_ok.mp hall
    have hcoh : s.Coherent sessionId base.reload := by
      cases hcached : store.projectionCache.get? sessionId with
      | some p =>
        rw [hcached] at hbase
        cases hbase
        obtain ⟨s₁, hs₁, hcoh⟩ := h.cached hcached
        cases hs.symm.trans hs₁
        exact hcoh
      | none =>
        rw [hcached] at hbase
        obtain ⟨p, hp⟩ := h.coherent hs
        cases hp.projected.symm.trans hbase
        exact hp.reload_eq.symm ▸ hp
    exact h.insert (hcoh.appendAll hall) rfl rfl
  · cases happ
  · cases happ

theorem Sound.forkSession (h : store.Sound) (id createdAt parent : String) (atEventId : Nat)
    (title : Option String) {db : Database}
    (hdb : store.db.forkSession id createdAt parent atEventId title = .ok db) :
    Sound { store with db } := by
  unfold Database.forkSession at hdb
  split at hdb
  · cases hdb
  next parentRows hparent =>
  simp only [Except.ite_error_eq_ok, not_not, Except.bind_eq_ok] at hdb
  obtain ⟨-, hlast, events, hevents, p, hp, hinsert⟩ := hdb
  obtain ⟨hnew, hrows⟩ := Except.ite_error_eq_ok.mp hinsert
  obtain ⟨s, hs, rfl⟩ := Except.map_eq_ok.mp hrows
  obtain ⟨hversion, rfl⟩ := recordedFromRows_eq_ok.mp hevents
  refine h.insert_new ?_ (by simpa [SortedMap.contains_eq_false_iff] using hnew) rfl
  suffices hbase : StoredSession.Coherent _ id (p.rename id).reload from hbase.appendBranch hs
  -- the copied rows under the new id replay to the parent's projection
  have hproject := project_rename id hp
  have hreload : (p.rename id).reload = p.rename id := by
    refine replayFrom_reload rfl ?_ (project_eq_ok.mp hproject).2
    simp only [List.mem_map, forall_exists_index, and_imp]
    rintro _ row - rfl
    exact row.2.decoded
  rw [hreload]
  refine ⟨StoredSession.projected_eq_ok.mpr ⟨hversion, hproject⟩, rfl, rfl, ?_⟩
  -- the last copied row is the one asked for, and ids are dense
  have hids := replayFrom_ids (project_eq_ok.mp hp).2
  rw [List.map_map, List.length_map] at hids
  have hkeys : (parentRows.events.entries.filter fun row => row.1 ≤ atEventId).map Prod.fst =
      List.range' 1 (parentRows.events.entries.filter fun row => row.1 ≤ atEventId).length := hids
  have hlength := project_lastEventId hp
  rw [List.length_map] at hlength
  have hat : (parentRows.events.entries.filter fun row => row.1 ≤ atEventId).length =
      atEventId := by
    rw [← List.getLast?_map, hkeys, List.getLast?_range'] at hlast
    split at hlast <;> simp at hlast
    omega
  rw [← hat]
  exact hlength

theorem Sound.updateSessionRetention (h : store.Sound) (sessionId : String)
    (retention : HistoryRetention) {db : Database}
    (hdb : store.db.updateSessionRetention sessionId retention = .ok db) :
    Sound { store with db } := by
  unfold Database.updateSessionRetention at hdb
  split at hdb
  · cases hdb
  next s hs =>
  cases hdb
  have hkeep : ∀ {p}, s.Coherent sessionId p →
      StoredSession.Coherent { s with summary := { s.summary with historyRetention := retention } }
        sessionId p := fun hp => ⟨hp.projected, hp.phase, hp.revision, hp.lastEventId⟩
  constructor
  · intro id s' hget
    rw [SortedMap.get?_insert] at hget
    split at hget
    · next heq =>
      cases hget
      obtain ⟨p, hp⟩ := h.coherent hs
      exact heq ▸ ⟨p, hkeep hp⟩
    · exact h.coherent hget
  · intro id p hget
    obtain ⟨s', hs', hcoh⟩ := h.cached hget
    by_cases heq : id = sessionId
    · subst heq
      cases hs.symm.trans hs'
      exact ⟨_, SortedMap.get?_insert_self .., hkeep hcoh⟩
    · exact ⟨s', by rw [SortedMap.get?_insert_of_ne _ _ heq, hs'], hcoh⟩

theorem Sound.projection (h : store.Sound) (sessionId : String) :
    (store.projection sessionId).2.Sound := by
  unfold Store.projection
  split
  · exact h
  split
  swap
  · exact h
  next p hp =>
  obtain ⟨events, hevents, hproject⟩ := Except.bind_eq_ok.mp hp
  unfold Database.events at hevents
  split at hevents
  · cases hevents
  next s hs =>
  obtain ⟨q, hq⟩ := h.coherent hs
  have hpq : p = q := by
    rw [hq.dense.readEvents, if_neg (Nat.not_lt_zero _), List.drop_zero] at hevents
    cases hevents
    have hprojected : s.projected sessionId = .ok p :=
      StoredSession.projected_eq_ok.mpr ⟨hq.dense.version, hproject⟩
    exact Except.ok.inj (hprojected.symm.trans hq.projected)
  subst hpq
  have hinsert : store.db.sessions = store.db.sessions.insert sessionId s :=
    (SortedMap.insert_eq_self hs).symm
  exact h.insert (hq.reload_eq.symm ▸ hq) hinsert rfl

/-- No other operation of the store writes session rows or the cache. -/
theorem Sound.perform (h : store.Sound) (now : String → Nat → String) (op : StoreOp) :
    (op.perform now store).2.Sound := by
  cases op with
  | projection sessionId => exact h.projection sessionId
  | append sessionId events => exact h.appendEvents sessionId (now sessionId) events
  | createSession id createdAt title projectId =>
    have hcreate : (store.transact
        (·.createSessionWithRetention id createdAt title projectId .forever)).2.Sound :=
      h.transact fun db hdb => h.createSession id createdAt title projectId .forever hdb
    simp only [StoreOp.perform]
    split <;> simp_all
  | createPermissionRule rule =>
    have hcreate : (store.transact (·.createPermissionRule rule)).2.Sound := by
      refine h.transact fun db hdb => ?_
      obtain ⟨-, hdb⟩ := Except.ite_error_eq_ok.mp hdb
      obtain ⟨-, hdb⟩ := Except.ite_ok_eq_ok.mp hdb
      cases hdb
      exact ⟨h.coherent, h.cached⟩
    simp only [StoreOp.perform]
    split <;> simp_all
  | createAgentLink link =>
    refine h.transact fun db hdb => ?_
    obtain ⟨-, hdb⟩ := Except.ite_ok_eq_ok.mp hdb
    cases hdb
    exact ⟨h.coherent, h.cached⟩
  | runningSessions => exact h
  | sessionIds => exact h
  | getSession sessionId => exact h
  | getProject projectId => exact h
  | matchingPermissionRule sessionId projectId agentId toolName => exact h
  | agentLinks sessionId => exact h

/-! ## Sequences of operations -/

end Store

/-- The operations that write session rows, with the ids and clock readings they use. -/
inductive StoreCommand where
  | createSessionWithRetention (id now : String) (title projectId : Option String)
      (historyRetention : HistoryRetention)
  | appendEvents (sessionId : String) (now : Nat → String) (events : List SemanticEvent)
  | forkSession (id now parentSessionId : String) (atEventId : Nat) (title : Option String)
  | updateSessionRetention (sessionId : String) (historyRetention : HistoryRetention)
  | recoverRunningSessions (now : String → Nat → String)

namespace Store

variable {store : Store}

/-- The store an operation leaves, whether it succeeded or not. -/
def execute (store : Store) : StoreCommand → Store
  | .createSessionWithRetention id now title projectId retention =>
    (store.transact (·.createSessionWithRetention id now title projectId retention)).2
  | .appendEvents sessionId now events => (store.appendEvents sessionId now events).2
  | .forkSession id now parentSessionId atEventId title =>
    (store.transact (·.forkSession id now parentSessionId atEventId title)).2
  | .updateSessionRetention sessionId retention =>
    (store.transact (·.updateSessionRetention sessionId retention)).2
  | .recoverRunningSessions now =>
    (Piqo.recoverRunningSessions.run (StoreOp.perform now) store).2

/-- The operations one after the other. -/
def executeAll (store : Store) (commands : List StoreCommand) : Store :=
  commands.foldl execute store

/-- Each operation preserves `Sound`. -/
theorem Sound.execute (h : store.Sound) (command : StoreCommand) : (store.execute command).Sound := by
  cases command with
  | createSessionWithRetention id now title projectId retention =>
    exact h.transact fun db hdb => h.createSession id now title projectId retention hdb
  | appendEvents sessionId now events => exact h.appendEvents sessionId now events
  | forkSession id now parent atEventId title =>
    exact h.transact fun db hdb => h.forkSession id now parent atEventId title hdb
  | updateSessionRetention sessionId retention =>
    exact h.transact fun db hdb => h.updateSessionRetention sessionId retention hdb
  | recoverRunningSessions now =>
    exact Program.run_preserves (S := storeSignature) (I := Sound) (StoreOp.perform now)
      (fun op _ hs => hs.perform now op) Piqo.recoverRunningSessions h

theorem Sound.executeAll (h : store.Sound) (commands : List StoreCommand) :
    (store.executeAll commands).Sound := by
  induction commands generalizing store with
  | nil => exact h
  | cons command commands ih => exact ih (h.execute command)

theorem validateSession_of_coherent {id : String} {s : StoredSession} {p : SessionProjection}
    (h : s.Coherent id p) : Database.validateSession id s = .ok () := by
  refine Except.bind_eq_ok.mpr ⟨p, h.projected, Except.ite_ok_eq_ok.mpr ⟨?_, rfl⟩⟩
  simp [Database.matchesRow, h.phase, h.revision, h.lastEventId]

theorem foldlM_ok {α : Type} {f : α → Except StoreError Unit} {xs : List α}
    (h : ∀ x ∈ xs, f x = .ok ()) : xs.foldlM (fun _ x => f x) () = .ok () := by
  induction xs with
  | nil => rfl
  | cons x xs ih =>
    rw [List.foldlM_cons, h x List.mem_cons_self]
    exact ih fun y hy => h y (List.mem_cons_of_mem _ hy)

/-- A sound store passes the check of the next start. -/
theorem Sound.validateAll (h : store.Sound) : store.db.validateAll = .ok () := by
  refine foldlM_ok fun e he => ?_
  obtain ⟨p, hp⟩ := h.coherent ((SortedMap.get?_eq_some_iff _).mpr he)
  exact validateSession_of_coherent hp

/-- **Row and log agree after any sequence of operations.** From a database without sessions,
every session's event ids are `1 … n`, its log replays, and its row holds the phase, revision and
last event id of the projection, so that the store reopens. -/
theorem executeAll_valid (projects : SortedMap String Project) (commands : List StoreCommand) :
    let store := (ofDatabase (.empty projects)).executeAll commands
    (∀ id s, store.db.sessions.get? id = some s →
      s.events.keys = List.range' 1 s.events.keys.length ∧
      ∃ p, s.projected id = .ok p ∧ s.summary.phase = p.state.phase ∧
        s.summary.revision = p.state.revision ∧
        p.state.lastEventId = some s.summary.lastEventId) ∧
      store.db.validateAll = .ok () := by
  intro store
  have hsound : store.Sound := (Sound.empty projects).executeAll commands
  refine ⟨fun id s hs => ?_, hsound.validateAll⟩
  obtain ⟨p, hp⟩ := hsound.coherent hs
  refine ⟨?_, p, hp.projected, hp.phase, hp.revision, hp.lastEventId⟩
  rw [hp.dense.keys, List.length_range']

end Store

end Piqo
