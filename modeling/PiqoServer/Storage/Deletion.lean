import PiqoServer.Storage.View

/-!
# Deleting a project

`delete_project` of `SqliteStore` (`piqo-server/src/storage.rs`) reads the sessions of the project,
deletes its row, and removes those sessions from the projection cache. With the row the foreign keys
of the migrations delete the sessions of the project, their events, links and rules; a session that
stays must not lose its parent, else nothing is deleted.

No event is appended.

## Main definitions

* `Database.projectSessionIds`, `Database.deleteProject`: the queries
* `Store.deleteProject`: the operation
* `Store.InProject`: the sessions that go

## Main results

* `Store.Sound.deleteProject`: a sound store stays sound
* `Store.Sound.view_deleteProject`: a session outside the project is shown as before
-/

namespace Piqo

/-! ## The queries -/

/-- The session is one of the project. -/
def StoredSession.inProject (s : StoredSession) (projectId : String) : Bool :=
  s.summary.projectId = some projectId

namespace Database

/-- `SELECT id FROM sessions WHERE project_id = ?`, where the project exists. -/
def projectSessionIds (db : Database) (projectId : String) : Except StoreError (List String) :=
  (db.getProject projectId).map fun _ =>
    (db.sessions.filter fun _ s => s.inProject projectId).keys

/-- The session goes with the project. -/
def goes (db : Database) (projectId sessionId : String) : Bool :=
  (db.sessions.get? sessionId).any (·.inProject projectId)

/-- `DELETE FROM projects WHERE id = ?`. -/
def deleteProject (db : Database) (projectId : String) : Except StoreError Database :=
  let sessions := db.sessions.filter fun _ s => !s.inProject projectId
  -- `parent_session_id` refers to `sessions` without a cascade
  if sessions.values.all fun s => s.summary.parentSessionId.all (!db.goes projectId ·) then
    .ok {
      projects := db.projects.erase projectId
      sessions
      permissionRules := db.permissionRules.filter fun rule =>
        rule.projectId ≠ some projectId && rule.sessionId.all (!db.goes projectId ·)
      agentLinks := db.agentLinks.filter fun link =>
        !db.goes projectId link.parentSessionId && !db.goes projectId link.childSessionId }
  else .error .database

theorem projectSessionIds_eq_ok {db : Database} {projectId : String} {ids : List String}
    (h : db.projectSessionIds projectId = .ok ids) {id : String} :
    id ∈ ids ↔ ∃ s, db.sessions.get? id = some s ∧ s.inProject projectId = true := by
  obtain ⟨_, -, rfl⟩ := Except.map_eq_ok.mp h
  rw [SortedMap.mem_keys_iff]
  exact exists_congr fun s => SortedMap.get?_filter_eq_some _ _

theorem deleteProject_sessions {db db' : Database} {projectId : String}
    (h : db.deleteProject projectId = .ok db') {id : String} {s : StoredSession} :
    db'.sessions.get? id = some s ↔
      db.sessions.get? id = some s ∧ s.inProject projectId = false := by
  obtain ⟨-, hdb⟩ := Except.ite_ok_eq_ok.mp h
  cases hdb
  rw [SortedMap.get?_filter_eq_some, Bool.not_eq_true']

end Database

/-! ## The operation -/

namespace Store

/-- The session is one of the project. -/
def InProject (store : Store) (projectId sessionId : String) : Prop :=
  ∃ s, store.db.sessions.get? sessionId = some s ∧ s.inProject projectId = true

/-- Remove sessions from the cache. -/
def forget (store : Store) (sessionIds : List String) : Store :=
  { store with projectionCache := sessionIds.foldl SortedMap.erase store.projectionCache }

def deleteProject (store : Store) (projectId : String) : Except StoreError Unit × Store :=
  match store.db.projectSessionIds projectId with
  | .error e => (.error e, store)
  | .ok sessionIds =>
    match store.transact (·.deleteProject projectId) with
    | (.ok (), store) => (.ok (), store.forget sessionIds)
    | (.error e, store) => (.error e, store)

theorem get?_forget (store : Store) (sessionIds : List String) (id : String) :
    (store.forget sessionIds).projectionCache.get? id =
      if id ∈ sessionIds then none else store.projectionCache.get? id := by
  unfold forget
  generalize store.projectionCache = cache
  induction sessionIds generalizing cache with
  | nil => simp
  | cons gone sessionIds ih =>
    rw [List.foldl_cons, ih, SortedMap.get?_erase]
    by_cases hid : id = gone
    · simp [hid]
    · simp [hid]

/-- A project is deleted with its sessions, or nothing changes. -/
theorem deleteProject_cases (store : Store) (projectId : String) :
    (∃ e, store.deleteProject projectId = (.error e, store)) ∨
      ∃ store', store.deleteProject projectId = (.ok (), store') ∧
        (∀ {id s}, store'.db.sessions.get? id = some s ↔
          store.db.sessions.get? id = some s ∧ s.inProject projectId = false) ∧
        (∀ id, store.InProject projectId id → store'.projectionCache.get? id = none) ∧
        ∀ id, ¬ store.InProject projectId id →
          store'.projectionCache.get? id = store.projectionCache.get? id := by
  unfold deleteProject transact
  rcases hids : store.db.projectSessionIds projectId with e | sessionIds
  · exact .inl ⟨e, rfl⟩
  have hmem : ∀ id, id ∈ sessionIds ↔ store.InProject projectId id :=
    fun id => Database.projectSessionIds_eq_ok hids
  dsimp only
  rcases hdb : store.db.deleteProject projectId with e | db
  · exact .inl ⟨e, rfl⟩
  refine .inr ⟨_, rfl, Database.deleteProject_sessions hdb, fun id hid => ?_, fun id hid => ?_⟩
  · rw [get?_forget, if_pos ((hmem id).mpr hid)]
  · rw [get?_forget, if_neg fun h => hid ((hmem id).mp h)]

variable {store : Store} {projectId : String}

/-- A sound store stays sound. -/
theorem Sound.deleteProject (h : store.Sound) : (store.deleteProject projectId).2.Sound := by
  rcases store.deleteProject_cases projectId with
    ⟨e, heq⟩ | ⟨store', heq, hsessions, hgone, hcache⟩
  · rwa [heq]
  rw [heq]
  constructor
  · intro id s hs
    exact h.coherent (hsessions.mp hs).1
  · intro id p hp
    -- what is still cached is outside the project, so its row is still there
    have hout : ¬ store.InProject projectId id := by
      intro hin
      rw [hgone id hin] at hp
      cases hp
    obtain ⟨s, hs, hcoherent⟩ := h.cached ((hcache id hout).symm.trans hp)
    refine ⟨s, hsessions.mpr ⟨hs, ?_⟩, hcoherent⟩
    exact Bool.eq_false_iff.mpr fun hin => hout ⟨s, hs, hin⟩

/-- A session outside the project is shown as before. -/
theorem Sound.view_deleteProject (h : store.Sound) {id : String} {p : SessionProjection}
    (hview : store.view id = some p) (hout : ¬ store.InProject projectId id) :
    (store.deleteProject projectId).2.view id = some p := by
  rcases store.deleteProject_cases projectId with
    ⟨e, heq⟩ | ⟨store', heq, hsessions, -, hcache⟩
  · rwa [heq]
  obtain ⟨s, hs, -⟩ := h.coherent_view hview
  have hs' : store'.db.sessions.get? id = some s :=
    hsessions.mpr ⟨hs, Bool.eq_false_iff.mpr fun hin => hout ⟨s, hs, hin⟩⟩
  rw [heq]
  change store'.view id = some p
  rwa [view, hcache id hout, hs', ← hs, ← view]

end Store

end Piqo
