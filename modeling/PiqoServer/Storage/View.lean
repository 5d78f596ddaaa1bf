import PiqoServer.Core.Messages
import PiqoServer.Storage.Sequential
import PiqoServer.Storage.Interleaving

/-!
# What a sequential program sees of the store

Run one operation at a time, a sound store shows one projection per session: the cached one, or
that of the log. Reading it changes nothing a program can see, and appending events applies them
to it, or changes nothing at all.

## Main definitions

* `SessionProjection.applyAll`: events in turn, with the ids that follow
* `Store.view`: the projection of a session that the store shows
* `Store.Touches`: only the log of one session differs

## Main results

* `Store.Sound.projection_view`: reading a session
* `Store.Sound.appendEvents_ok`, `Store.Sound.appendEvents_error`: appending to it
-/

namespace Piqo

/-! ## Applying events in turn -/

namespace SessionProjection

/-- Apply events in turn, with the ids that follow the last one. -/
def applyAll : SessionProjection → List SemanticEvent → Except ProjectionError SessionProjection
  | p, [] => .ok p
  | p, event :: events =>
    (p.apply (p.state.lastEventId.getD 0 + 1) event).bind fun q => q.applyAll events

theorem applyAll_cons {p q : SessionProjection} {event : SemanticEvent}
    {events : List SemanticEvent} (h : p.apply (p.state.lastEventId.getD 0 + 1) event = .ok q) :
    p.applyAll (event :: events) = q.applyAll events := by
  rw [applyAll, h]
  rfl

theorem applyAll_cons_eq_ok {p r : SessionProjection} {event : SemanticEvent}
    {events : List SemanticEvent} : p.applyAll (event :: events) = .ok r ↔
      ∃ q, p.apply (p.state.lastEventId.getD 0 + 1) event = .ok q ∧ q.applyAll events = .ok r :=
  Except.bind_eq_ok

theorem applyAll_append {p r : SessionProjection} {events more : List SemanticEvent} :
    p.applyAll (events ++ more) = .ok r ↔
      ∃ q, p.applyAll events = .ok q ∧ q.applyAll more = .ok r := by
  induction events generalizing p with
  | nil => exact ⟨fun h => ⟨p, rfl, h⟩, fun ⟨_, h, h'⟩ => by cases h; exact h'⟩
  | cons event events ih =>
    simp only [List.cons_append, applyAll_cons_eq_ok, ih]
    constructor
    · rintro ⟨q, hq, q', hq', h⟩
      exact ⟨q', ⟨q, hq, hq'⟩, h⟩
    · rintro ⟨q', ⟨q, hq, hq'⟩, h⟩
      exact ⟨q, hq, q', hq', h⟩

/-- What each of the events keeps, they keep. -/
theorem applyAll_keeps {I : SessionProjection → Prop} {p q : SessionProjection}
    {events : List SemanticEvent}
    (hkeeps : ∀ e ∈ events, ∀ {p q : SessionProjection},
      p.apply (p.state.lastEventId.getD 0 + 1) e = .ok q → I p → I q)
    (h : p.applyAll events = .ok q) (hp : I p) : I q := by
  induction events generalizing p with
  | nil =>
    cases h
    exact hp
  | cons e events ih =>
    obtain ⟨p', hone, hrest⟩ := applyAll_cons_eq_ok.mp h
    exact ih (fun e' he' => hkeeps e' (List.mem_cons_of_mem _ he')) hrest
      (hkeeps e List.mem_cons_self hone hp)

theorem applyAll_request {p q : SessionProjection} {events : List SemanticEvent}
    (h : p.applyAll events = .ok q) {runId : String} {run : RunProjection}
    (hrun : p.runs.get? runId = some run) :
    ∃ run', q.runs.get? runId = some run' ∧ run'.request = run.request := by
  refine applyAll_keeps
    (I := fun p => ∃ run', p.runs.get? runId = some run' ∧ run'.request = run.request) ?_ h
    ⟨run, hrun, rfl⟩
  rintro e - p q hone ⟨run₁, hrun₁, hrequest₁⟩
  obtain ⟨run', hrun', hrequest⟩ := apply_request hone hrun₁
  exact ⟨run', hrun', hrequest.trans hrequest₁⟩

end SessionProjection

namespace StoredSession

variable {s : StoredSession} {sessionId : String} {p q : SessionProjection} {event : SemanticEvent}
  {events : List SemanticEvent}

theorem Dense.not_contains (h : s.Dense) : s.events.contains (s.summary.lastEventId + 1) = false := by
  rw [SortedMap.contains_eq_false_iff, ← Option.not_isSome_iff_eq_none, Option.isSome_iff_exists]
  rintro ⟨row, hrow⟩
  have hle := h.key_le _ (s.events.get?_eq_some_iff.mp hrow)
  simp at hle

theorem Coherent.last_getD (h : s.Coherent sessionId p.reload) :
    p.state.lastEventId.getD 0 = s.summary.lastEventId := by
  have hlast := h.lastEventId
  rw [SessionProjection.reload_state] at hlast
  rw [hlast]
  rfl

theorem Coherent.appendOne_ok (h : s.Coherent sessionId p.reload) (now : Nat → String)
    (happly : p.apply (p.state.lastEventId.getD 0 + 1) event = .ok q) :
    ∃ s' record, s.appendOne sessionId now p event = .ok (s', q, record) ∧
      s'.summary.projectId = s.summary.projectId := by
  rw [h.last_getD] at happly
  have hrow : ¬ (s.summary.lastEventId + 1 = 0 ∨
      s.events.contains (s.summary.lastEventId + 1) = true) := by
    rw [h.dense.not_contains]
    simp
  have happend : ∃ s' record, s.appendOne sessionId now p event = .ok (s', q, record) := by
    simp only [StoredSession.appendOne, happly, insertEventRow]
    rw [if_neg hrow]
    exact ⟨_, _, rfl⟩
  obtain ⟨s', record, happend⟩ := happend
  refine ⟨s', record, happend, ?_⟩
  rw [(h.dense.appendOne happend).2.2.2.1]

/-- Appending to a session succeeds with the events its projection accepts. -/
theorem Coherent.appendAll_ok (h : s.Coherent sessionId p.reload) (now : Nat → String)
    (happly : p.applyAll events = .ok q) :
    ∃ s' records, StoredSession.appendAll sessionId now s p events = .ok (s', q, records) ∧
      s'.Coherent sessionId q.reload ∧ s'.summary.projectId = s.summary.projectId ∧
      records.length = events.length := by
  induction events generalizing s p with
  | nil =>
    cases happly
    exact ⟨s, [], rfl, h, rfl, rfl⟩
  | cons event events ih =>
    obtain ⟨p₁, hone, hrest⟩ := SessionProjection.applyAll_cons_eq_ok.mp happly
    obtain ⟨s₁, record, happend, hproject⟩ := h.appendOne_ok now hone
    obtain ⟨s', records, hall, hcoherent, hproject', hlength⟩ := ih (h.appendOne happend) hrest
    refine ⟨s', record :: records, ?_, hcoherent, hproject'.trans hproject, by simp [hlength]⟩
    exact appendAll_cons_eq_ok.mpr ⟨s₁, p₁, record, records, happend, hall, rfl⟩

/-- It fails with the error of the first event that is not accepted. -/
theorem Coherent.appendAll_error (h : s.Coherent sessionId p.reload) (now : Nat → String)
    {e : ProjectionError} (happly : p.applyAll events = .error e) :
    StoredSession.appendAll sessionId now s p events = .error (.invalidTransition e) := by
  induction events generalizing s p with
  | nil => cases happly
  | cons event events ih =>
    rw [SessionProjection.applyAll] at happly
    cases hone : p.apply (p.state.lastEventId.getD 0 + 1) event with
    | error e' =>
      rw [hone] at happly
      cases happly
      rw [h.last_getD] at hone
      rw [StoredSession.appendAll, StoredSession.appendOne]
      simp only [hone]
      rfl
    | ok p₁ =>
      rw [hone] at happly
      obtain ⟨s₁, record, happend, -⟩ := h.appendOne_ok now hone
      rw [StoredSession.appendAll, happend]
      change ((StoredSession.appendAll sessionId now s₁ p₁ events).map _) = _
      rw [ih (h.appendOne happend) happly]
      rfl

end StoredSession

/-! ## The store -/

namespace Store

variable {store : Store} {sessionId : String} {p : SessionProjection}

/-- The projection of a session that the store shows. -/
def view (store : Store) (sessionId : String) : Option SessionProjection :=
  match store.projectionCache.get? sessionId with
  | some p => some p
  | none => (store.db.sessions.get? sessionId).bind fun s => (s.projected sessionId).toOption

/-- What is shown is the projection of the session's log, up to reloading. -/
theorem Sound.coherent_view (h : store.Sound) (hview : store.view sessionId = some p) :
    ∃ s, store.db.sessions.get? sessionId = some s ∧ s.Coherent sessionId p.reload := by
  unfold view at hview
  split at hview
  · next q hcached =>
    cases hview
    exact h.cached hcached
  · obtain ⟨s, hs, hprojected⟩ := Option.bind_eq_some_iff.mp hview
    obtain ⟨q, hq⟩ := h.coherent hs
    rw [hq.projected] at hprojected
    cases hprojected
    exact ⟨s, hs, hq.reload_eq.symm ▸ hq⟩

theorem wellKeyed_of_reload (h : p.reload.WellKeyed) : p.WellKeyed where
  run := by
    intro runId run hrun
    have hreload : p.reload.runs.get? runId = some run.reload := by
      rw [SessionProjection.reload, SortedMap.get?_mapValues, hrun, Option.map_some]
    have hkey : run.reload.runId = runId := h.run hreload
    exact hkey
  call := by
    intro runId callId call hcall
    refine @SessionProjection.WellKeyed.call _ h runId _ _ ?_
    obtain ⟨run, hrun, hcall⟩ := Option.bind_eq_some_iff.mp hcall
    rw [SessionProjection.call?, SessionProjection.reload, SortedMap.get?_mapValues, hrun]
    exact hcall
  permission := h.permission

/-- What every event preserves that comes next, every session shows once it is reloaded. -/
theorem Sound.view_preserves {I : SessionProjection → Prop} (h : store.Sound)
    (hview : store.view sessionId = some p) (hnew : I (.new sessionId))
    (hI : ∀ {p q : SessionProjection} {event},
      p.apply (p.state.lastEventId.getD 0 + 1) event = .ok q → I p → I q) : I p.reload := by
  obtain ⟨s, -, hcoherent⟩ := h.coherent_view hview
  obtain ⟨-, hproject⟩ := StoredSession.projected_eq_ok.mp hcoherent.projected
  exact project_preserves hnew hI hproject

/-- What is shown is filed under its own ids. -/
theorem Sound.wellKeyed_view (h : store.Sound) (hview : store.view sessionId = some p) :
    p.WellKeyed :=
  wellKeyed_of_reload (h.view_preserves hview (.new _) fun happly hp => hp.apply happly)

/-- Its messages stand in the order in which they were opened. -/
theorem Sound.messagesOrdered_view (h : store.Sound) (hview : store.view sessionId = some p) :
    p.MessagesOrdered := by
  have hordered := h.view_preserves hview (.new _) fun happly hp =>
    SessionProjection.MessagesOrdered.apply hp happly
  exact ⟨hordered.nodup, hordered.opened, hordered.bounded⟩

theorem Sound.exists_view (h : store.Sound) {s : StoredSession}
    (hs : store.db.sessions.get? sessionId = some s) : ∃ p, store.view sessionId = some p := by
  unfold view
  split
  · exact ⟨_, rfl⟩
  · obtain ⟨q, hq⟩ := h.coherent hs
    exact ⟨q, by rw [hs, Option.bind_some, hq.projected]; rfl⟩

/-- After a restart the projections come from the logs. -/
theorem Sound.view_ofDatabase (h : store.Sound) (sessionId : String) :
    (ofDatabase store.db).view sessionId = (store.view sessionId).map (·.reload) := by
  have hlog : (ofDatabase store.db).view sessionId =
      (store.db.sessions.get? sessionId).bind fun s => (s.projected sessionId).toOption := rfl
  rw [hlog]
  cases hview : store.view sessionId with
  | some p =>
    obtain ⟨s, hs, hcoherent⟩ := h.coherent_view hview
    rw [hs, Option.bind_some, hcoherent.projected]
    rfl
  | none =>
    cases hs : store.db.sessions.get? sessionId with
    | none => rfl
    | some s =>
      obtain ⟨p, hp⟩ := h.exists_view hs
      rw [hview] at hp
      cases hp

theorem Sound.ofDatabase (h : store.Sound) : (ofDatabase store.db).Sound where
  coherent := h.coherent
  cached hcached := by simp [Store.ofDatabase] at hcached

theorem view_cache (store : Store) (db : Database) (id : String) (q : SessionProjection)
    (hdb : ∀ id' ≠ id, db.sessions.get? id' = store.db.sessions.get? id') :
    ({ db, projectionCache := store.projectionCache.insert id q } : Store).view sessionId =
      if sessionId = id then some q else store.view sessionId := by
  unfold view
  by_cases hid : sessionId = id
  · rw [if_pos hid, hid, SortedMap.get?_insert_self]
  · rw [if_neg hid, SortedMap.get?_insert_of_ne _ _ hid, hdb _ hid]

/-- Reading a session fills the cache with what is shown. -/
theorem Sound.projection_view (h : store.Sound) (hview : store.view sessionId = some p) :
    store.projection sessionId =
      (.ok p, { store with projectionCache := store.projectionCache.insert sessionId p }) := by
  unfold Store.projection
  cases hcached : store.projectionCache.get? sessionId with
  | some q =>
    have hq : q = p := by
      rw [view, hcached] at hview
      exact Option.some.inj hview
    rw [← hq, SortedMap.insert_eq_self hcached]
  | none =>
    rw [view, hcached] at hview
    obtain ⟨s, hs, hprojected⟩ := Option.bind_eq_some_iff.mp hview
    obtain ⟨q, hq⟩ := h.coherent hs
    rw [hq.projected] at hprojected
    cases hprojected
    have hevents : (store.db.events sessionId 0 u32Max).bind (project sessionId) = .ok p := by
      rw [Database.events, hs]
      exact hq.loadProjection
    simp only [hevents]

/-- Only the log of `sessionId` differs. -/
structure Touches (sessionId : String) (store store' : Store) : Prop where
  views : ∀ id ≠ sessionId, store'.view id = store.view id
  tables : store'.db = { store.db with sessions := store'.db.sessions }
  keys : store'.db.sessions.keys = store.db.sessions.keys
  projects : ∀ id, (store'.db.sessions.get? id).map (·.summary.projectId) =
    (store.db.sessions.get? id).map (·.summary.projectId)

theorem Touches.refl (sessionId : String) (store : Store) : store.Touches sessionId store :=
  ⟨fun _ _ => rfl, rfl, rfl, fun _ => rfl⟩

theorem Touches.trans {store₁ store₂ store₃ : Store} (h : store₁.Touches sessionId store₂)
    (h' : store₂.Touches sessionId store₃) : store₁.Touches sessionId store₃ where
  views id hid := (h'.views id hid).trans (h.views id hid)
  tables := by rw [h'.tables, h.tables]
  keys := h'.keys.trans h.keys
  projects id := (h'.projects id).trans (h.projects id)

theorem keys_insert_of_mem {K V : Type} [LinearOrder K] {m : SortedMap K V} {k : K} {v w : V}
    (h : m.get? k = some v) : (m.insert k w).keys = m.keys := by
  obtain ⟨es, hes⟩ := m
  have hmem : (k, v) ∈ es := (SortedMap.lookup_eq_some_iff hes).mp h
  change (SortedMap.insertEntry k w es).map Prod.fst = es.map Prod.fst
  clear h
  induction es with
  | nil => simp at hmem
  | cons e es ih =>
    obtain ⟨hhead, htail⟩ := List.pairwise_cons.mp hes
    rcases List.mem_cons.mp hmem with rfl | hmem
    · simp [SortedMap.insertEntry]
    · have hlt := hhead _ hmem
      rw [SortedMap.insertEntry, if_neg hlt.not_gt, if_neg hlt.ne', List.map_cons, List.map_cons,
        ih htail hmem]

/-- Reading a session touches nothing. -/
theorem Sound.touches_projection (h : store.Sound) (hview : store.view sessionId = some p) :
    let store' : Store :=
      { store with projectionCache := store.projectionCache.insert sessionId p }
    store'.Sound ∧ (∀ id, store'.view id = store.view id) ∧ store'.db = store.db := by
  have hprojection := h.projection sessionId
  rw [h.projection_view hview] at hprojection
  refine ⟨hprojection, fun id => ?_, rfl⟩
  rw [view_cache store store.db sessionId p fun _ _ => rfl]
  split
  · next hid => rw [hid, hview]
  · rfl

theorem Sound.projection_missing (h : store.Sound)
    (hview : store.view sessionId = none) :
    store.projection sessionId = (.error (.sessionNotFound sessionId), store) := by
  have hmissing : store.db.sessions.get? sessionId = none := by
    cases hs : store.db.sessions.get? sessionId with
    | none => rfl
    | some s =>
      obtain ⟨p, hp⟩ := h.exists_view hs
      rw [hview] at hp
      cases hp
  unfold Store.projection
  cases hcached : store.projectionCache.get? sessionId with
  | some p => rw [Store.view, hcached] at hview; cases hview
  | none =>
    rw [Database.events, hmissing]
    rfl

theorem Sound.view_projection (h : store.Sound) (sessionId id : String) :
    (store.projection sessionId).2.view id = store.view id := by
  cases hview : store.view sessionId with
  | some p =>
    rw [h.projection_view hview]
    exact (h.touches_projection hview).2.1 id
  | none => rw [h.projection_missing hview]

/-- A projection that is returned is what is shown. -/
theorem Sound.view_of_projection (h : store.Sound)
    {p : SessionProjection} (hp : (store.projection sessionId).1 = .ok p) :
    store.view sessionId = some p := by
  cases hview : store.view sessionId with
  | some q =>
    rw [h.projection_view hview] at hp
    cases hp
    rfl
  | none =>
    rw [h.projection_missing hview] at hp
    cases hp

/-- A transaction starts from what the store shows. -/
theorem Sound.appendEvents_eq (h : store.Sound) (hview : store.view sessionId = some p)
    {s : StoredSession} (hs : store.db.sessions.get? sessionId = some s)
    {events : List SemanticEvent} (hne : events ≠ []) (now : Nat → String) :
    store.appendEvents sessionId now events =
      match StoredSession.appendAll sessionId now s p events with
      | .ok (s', q, records) => (.ok records,
          { db := { store.db with sessions := store.db.sessions.insert sessionId s' }
            projectionCache := store.projectionCache.insert sessionId q })
      | .error e => (.error e, store) := by
  have hbase : s.baseProjection sessionId (store.projectionCache.get? sessionId) = .ok p := by
    cases hcached : store.projectionCache.get? sessionId with
    | some q =>
      rw [view, hcached] at hview
      cases hview
      rfl
    | none =>
      rw [view, hcached, hs] at hview
      obtain ⟨q, hq⟩ := h.coherent hs
      change (s.projected sessionId).toOption = _ at hview
      rw [hq.projected] at hview
      cases hview
      exact hq.projected
  simp only [Store.appendEvents, if_neg hne, Database.appendEvents, hs, StoredSession.append,
    hbase, Except.bind]
  cases StoredSession.appendAll sessionId now s p events <;> rfl

/-- Appending what the projection accepts. -/
theorem Sound.appendEvents_ok (h : store.Sound) (hview : store.view sessionId = some p)
    {q : SessionProjection} {events : List SemanticEvent} (now : Nat → String)
    (happly : p.applyAll events = .ok q) :
    ∃ records store', store.appendEvents sessionId now events = (.ok records, store') ∧
      store'.Sound ∧ store'.view sessionId = some q ∧ store.Touches sessionId store' ∧
      records.length = events.length := by
  have hsound := h.appendEvents sessionId now events
  by_cases hnil : events = []
  · subst hnil
    cases happly
    exact ⟨[], store, if_pos rfl, h, hview, .refl .., rfl⟩
  obtain ⟨s, hs, hcoherent⟩ := h.coherent_view hview
  obtain ⟨s', records, hall, -, hproject, hlength⟩ := hcoherent.appendAll_ok now happly
  have happend := h.appendEvents_eq hview hs hnil now
  rw [hall] at happend
  rw [happend] at hsound
  refine ⟨records, _, happend, hsound, ?_, ⟨fun id hid => ?_, rfl, ?_, fun id => ?_⟩, hlength⟩
  · rw [view_cache store _ sessionId q fun id hid => SortedMap.get?_insert_of_ne _ _ hid,
      if_pos rfl]
  · rw [view_cache store _ sessionId q fun id hid => SortedMap.get?_insert_of_ne _ _ hid,
      if_neg hid]
  · exact keys_insert_of_mem hs
  · by_cases hid : id = sessionId
    · rw [hid, SortedMap.get?_insert_self, hs]
      exact congrArg some hproject
    · rw [SortedMap.get?_insert_of_ne _ _ hid]

/-- A session that is not shown does not exist, and nothing is appended to it. -/
theorem Sound.appendEvents_missing (h : store.Sound) (hview : store.view sessionId = none)
    (events : List SemanticEvent) (now : Nat → String) :
    (store.appendEvents sessionId now events).2 = store ∧
      (events ≠ [] → ∃ e, (store.appendEvents sessionId now events).1 = .error e) := by
  have hmissing : store.db.sessions.get? sessionId = none := by
    cases hs : store.db.sessions.get? sessionId with
    | none => rfl
    | some s =>
      obtain ⟨p, hp⟩ := h.exists_view hs
      rw [hview] at hp
      cases hp
  unfold Store.appendEvents Database.appendEvents
  split
  · next hnil => exact ⟨rfl, fun hne => absurd hnil hne⟩
  · rw [hmissing]
    cases store.projectionCache.get? sessionId <;> exact ⟨rfl, fun _ => ⟨_, rfl⟩⟩

/-- Appending what it does not accept. -/
theorem Sound.appendEvents_error (h : store.Sound) (hview : store.view sessionId = some p)
    {events : List SemanticEvent} (now : Nat → String) {e : ProjectionError}
    (happly : p.applyAll events = .error e) :
    store.appendEvents sessionId now events = (.error (.invalidTransition e), store) := by
  have hne : events ≠ [] := by
    rintro rfl
    cases happly
  obtain ⟨s, hs, hcoherent⟩ := h.coherent_view hview
  rw [h.appendEvents_eq hview hs hne now, hcoherent.appendAll_error now happly]

end Store

end Piqo
