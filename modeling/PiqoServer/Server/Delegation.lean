import Mathlib.Data.List.Nodup
import PiqoServer.Server.Runs

/-!
# Delegated permissions

A session delegated by `spawn_delegated_child` stands under the permission table of its parent's
agent. `evaluate_tool_permissions` combines that table with the child's own and with durable
rules. The decision never exceeds the parent's setting where the parent has one; a parent without
a setting, and every ancestor above the parent, sets no limit.

## Main definitions

* `Delegated`: the links are those that `spawnDelegatedChild` creates
* `Lineage`: the requests of a session's ancestors, from the parent up
* `PermissionDecision.level`, `settingLevel`: how permissive a decision or a setting is
* `Narrow`: where the decision exceeds no ancestor

## Main results

* `spawnDelegatedChild_delegated`: delegation keeps `Delegated`
* `decideCalls_narrow_iff`: the decisions exceed no ancestor exactly where `Narrow` says
* `decideCalls_widened`: a child allowed what its parent is not
-/

namespace Piqo

/-! ## Links -/

/-- The links of the store are those that `spawnDelegatedChild` creates under `config`: one per
child session, with the permissions of the parent's agent as the ceiling. -/
structure Delegated (config : PiqoConfig) (w : World) : Prop where
  unique : (w.store.db.agentLinks.map (·.childSessionId)).Nodup
  spawned : ∀ link ∈ w.store.db.agentLinks, ∃ p run request,
    w.view link.parentSessionId = some p ∧ p.runs.get? link.parentRunId = some run ∧
      RunRequest.ofJson? run.request = some request ∧
      link.permissionCeiling = (permissionCeiling config request).toJson

/-- The requests of a session's ancestors, from the parent up. -/
inductive Lineage (w : World) : String → List RunRequest → Prop
  | nil (sessionId : String) : Lineage w sessionId []
  | cons {link : AgentLinkRecord} {p : SessionProjection} {run : RunProjection}
      {request : RunRequest} {ancestors : List RunRequest}
      (hlink : link ∈ w.store.db.agentLinks) (hview : w.view link.parentSessionId = some p)
      (hrun : p.runs.get? link.parentRunId = some run)
      (hrequest : RunRequest.ofJson? run.request = some request)
      (hparent : Lineage w link.parentSessionId ancestors) :
    Lineage w link.childSessionId (request :: ancestors)

/-! ## What every operation keeps -/

section Keeps

variable {store : Store} {w : World} (env : Surroundings)

theorem Store.view_congr {store' : Store} (hcache : store'.projectionCache = store.projectionCache)
    (hsessions : store'.db.sessions = store.db.sessions) (id : String) :
    store'.view id = store.view id := by
  rw [Store.view, Store.view, hcache, hsessions]

theorem Store.Sound.view_createSession (h : store.Sound) (id now : String)
    (title projectId : Option String) {id' : String} {p : SessionProjection}
    (hview : store.view id' = some p) :
    (store.transact (·.createSessionWithRetention id now title projectId .forever)).2.view id' =
      some p := by
  unfold Store.transact
  split
  · next db hdb =>
    obtain ⟨-, -, hinsert⟩ := Except.bind_eq_ok.mp hdb
    obtain ⟨hnew, hrows⟩ := Except.ite_error_eq_ok.mp hinsert
    obtain ⟨s, -, rfl⟩ := Except.map_eq_ok.mp hrows
    obtain ⟨s', hs', -⟩ := h.coherent_view hview
    have hne : id' ≠ id := by
      rintro rfl
      simp [SortedMap.contains, hs'] at hnew
    rw [Store.view] at hview ⊢
    simp only [SortedMap.get?_insert_of_ne _ _ hne]
    exact hview
  · exact hview

theorem perform_createSession (now : String → Nat → String) (id createdAt : String)
    (title projectId : Option String) (store : Store) :
    ((StoreOp.createSession id createdAt title projectId).perform now store).2 =
      (store.transact (·.createSessionWithRetention id createdAt title projectId .forever)).2 := by
  simp only [StoreOp.perform]
  split <;> simp_all

theorem perform_createPermissionRule (now : String → Nat → String) (rule : PermissionRuleRecord)
    (store : Store) : ((StoreOp.createPermissionRule rule).perform now store).2 =
      (store.transact (·.createPermissionRule rule)).2 := by
  simp only [StoreOp.perform]
  split <;> simp_all

/-- A rule is added, or nothing changes. -/
theorem transact_createPermissionRule_cases (store : Store) (rule : PermissionRuleRecord) :
    (store.transact (·.createPermissionRule rule) = (.ok (), { store with
      db := { store.db with permissionRules := store.db.permissionRules ++ [rule] } })) ∨
      ∃ e, store.transact (·.createPermissionRule rule) = (.error e, store) := by
  unfold Store.transact
  split
  · next db hdb =>
    obtain ⟨-, hdb⟩ := Except.ite_error_eq_ok.mp hdb
    obtain ⟨-, hdb⟩ := Except.ite_ok_eq_ok.mp hdb
    cases hdb
    exact .inl rfl
  · exact .inr ⟨_, rfl⟩

/-- A rule changes the table of rules only. -/
theorem transact_createPermissionRule (rule : PermissionRuleRecord) :
    let store' := (store.transact (·.createPermissionRule rule)).2
    store'.projectionCache = store.projectionCache ∧ store'.db.sessions = store.db.sessions := by
  rcases transact_createPermissionRule_cases store rule with hrule | ⟨e, hrule⟩ <;> rw [hrule] <;>
    exact ⟨rfl, rfl⟩

/-- A link is added where no link of the same child is, or nothing changes. -/
theorem transact_createAgentLink (store : Store) (link : AgentLinkRecord) :
    let store' := (store.transact (·.createAgentLink link)).2
    store'.projectionCache = store.projectionCache ∧ store'.db.sessions = store.db.sessions ∧
      (store'.db.agentLinks = store.db.agentLinks ∨
        store'.db.agentLinks = store.db.agentLinks ++ [link] ∧
          ∀ other ∈ store.db.agentLinks, other.childSessionId ≠ link.childSessionId) := by
  unfold Store.transact
  split
  · next db hdb =>
    obtain ⟨hinsertable, hdb⟩ := Except.ite_ok_eq_ok.mp hdb
    cases hdb
    refine ⟨rfl, rfl, .inr ⟨rfl, fun other hother => ?_⟩⟩
    simp only [Database.linkInsertable, Bool.and_eq_true, List.all_eq_true] at hinsertable
    have hother := hinsertable.1.1.1 other hother
    simp only [decide_eq_true_eq] at hother
    exact hother.2
  · exact ⟨rfl, rfl, .inl rfl⟩

/-- An operation other than an append shows what was shown. -/
theorem World.handle_view (hw : w.Sound) {op : ServerOp}
    (hop : ∀ id events, op ≠ .store (.append id events)) {id : String} {p : SessionProjection}
    (hview : w.view id = some p) : (World.handle env op w).2.view id = some p := by
  cases op with
  | publish record => exact hview
  | startWorker sessionId => exact hview
  | external op => exact hview
  | store op =>
    cases op with
    | append id events => exact absurd rfl (hop id events)
    | projection sessionId => exact (Store.Sound.view_projection hw sessionId id).trans hview
    | createSession newId now title projectId =>
      refine Eq.trans ?_ (Store.Sound.view_createSession hw newId now title projectId hview)
      exact congrArg (Store.view · id) (perform_createSession ..)
    | createPermissionRule rule =>
      refine (Store.view_congr ?_ ?_ id).trans hview
      · rw [World.handle, perform_createPermissionRule]
        exact (transact_createPermissionRule rule).1
      · rw [World.handle, perform_createPermissionRule]
        exact (transact_createPermissionRule rule).2
    | createAgentLink link =>
      exact (Store.view_congr (transact_createAgentLink w.store link).1
        (transact_createAgentLink w.store link).2.1 id).trans hview
    | runningSessions => exact hview
    | sessionIds => exact hview
    | getSession sessionId => exact hview
    | getProject projectId => exact hview
    | matchingPermissionRule sessionId projectId agentId toolName => exact hview
    | agentLinks sessionId => exact hview

/-- What every accepted event keeps of what is shown of a session, every operation keeps. -/
theorem World.handle_keeps (hw : w.Sound) {I : SessionProjection → Prop}
    (hI : ∀ {p q eventId e}, p.apply eventId e = .ok q → I p → I q) (op : ServerOp) {id : String}
    {p : SessionProjection} (hview : w.view id = some p) (hp : I p) :
    ∃ p', (World.handle env op w).2.view id = some p' ∧ I p' := by
  by_cases hop : ∀ id events, op ≠ .store (.append id events)
  · exact ⟨p, World.handle_view env hw hop hview, hp⟩
  simp only [not_forall, not_not] at hop
  obtain ⟨sessionId, events, rfl⟩ := hop
  rcases World.handle_append_view env hw sessionId events with
    hviews | ⟨q, q', hq, happly, hq', hothers⟩
  · exact ⟨p, (hviews id).trans hview, hp⟩
  · by_cases hid : id = sessionId
    · subst hid
      cases hview.symm.trans hq
      exact ⟨q', hq', SessionProjection.applyAll_keeps (fun _ _ => hI) happly hp⟩
    · exact ⟨p, (hothers id hid).trans hview, hp⟩

/-- A session that is shown stays, and its runs keep their requests. -/
theorem World.handle_request (hw : w.Sound) (op : ServerOp) {id runId : String}
    {p : SessionProjection} {run : RunProjection} (hview : w.view id = some p)
    (hrun : p.runs.get? runId = some run) :
    ∃ p' run', (World.handle env op w).2.view id = some p' ∧ p'.runs.get? runId = some run' ∧
      run'.request = run.request := by
  obtain ⟨p', hview', run', hrun', hrequest⟩ := World.handle_keeps env hw
    (I := fun p => ∃ run', p.runs.get? runId = some run' ∧ run'.request = run.request)
    (fun happly ⟨run', hrun', hrequest⟩ =>
      have ⟨run'', hrun'', hsame⟩ := SessionProjection.apply_request happly hrun'
      ⟨run'', hrun'', hsame.trans hrequest⟩) op hview ⟨run, hrun, rfl⟩
  exact ⟨p', run', hview', hrun', hrequest⟩

/-- The rule that an operation leaves. -/
def rulesLeft : (op : ServerOp) → op.Reply → List PermissionRuleRecord
  | .store (.createPermissionRule _), .ok rule => [rule]
  | _, _ => []

/-- An append writes session rows only. -/
theorem appendEvents_tables (sessionId : String) (now : Nat → String)
    (events : List SemanticEvent) : ∃ sessions,
      (store.appendEvents sessionId now events).2.db = { store.db with sessions } := by
  unfold Store.appendEvents
  split
  · exact ⟨store.db.sessions, rfl⟩
  · dsimp only
    split
    · next db p records happend =>
      unfold Database.appendEvents at happend
      split at happend
      · obtain ⟨⟨s', q, records'⟩, -, heq⟩ := Except.map_eq_ok.mp happend
        cases heq
        exact ⟨_, rfl⟩
      · cases happend
      · cases happend
    · exact ⟨store.db.sessions, rfl⟩

/-- So does the creation of a session. -/
theorem createSession_tables (id now : String) (title projectId : Option String) : ∃ sessions,
    (store.transact (·.createSessionWithRetention id now title projectId .forever)).2.db =
      { store.db with sessions } := by
  unfold Store.transact
  split
  · next db hdb =>
    obtain ⟨-, -, hinsert⟩ := Except.bind_eq_ok.mp hdb
    obtain ⟨-, hrows⟩ := Except.ite_error_eq_ok.mp hinsert
    obtain ⟨s, -, rfl⟩ := Except.map_eq_ok.mp hrows
    exact ⟨_, rfl⟩
  · exact ⟨store.db.sessions, rfl⟩

/-- What the creation of a session leaves: the session is new. -/
theorem transact_createSession (store : Store) (id now : String) (title projectId : Option String) :
    let r := store.transact (·.createSessionWithRetention id now title projectId .forever)
    (∃ e, r = (.error e, store)) ∨
      r.1 = .ok () ∧ store.db.sessions.contains id = false ∧
        ∃ s, r.2.db.sessions = store.db.sessions.insert id s ∧ s.summary.id = id := by
  unfold Store.transact
  split
  · next db hdb =>
    obtain ⟨-, -, hinsert⟩ := Except.bind_eq_ok.mp hdb
    obtain ⟨hnew, hrows⟩ := Except.ite_error_eq_ok.mp hinsert
    obtain ⟨s, hs, rfl⟩ := Except.map_eq_ok.mp hrows
    refine .inr ⟨rfl, by simpa using hnew, s, rfl, ?_⟩
    obtain ⟨-, hs⟩ := Except.ite_error_eq_ok.mp hs
    cases hs
    rfl
  · exact .inl ⟨_, rfl⟩

/-- Reading a session writes no table. -/
theorem projection_tables (sessionId : String) : (store.projection sessionId).2.db = store.db := by
  unfold Store.projection
  split
  · rfl
  · split <;> rfl

/-- No operation changes the projects, one adds rules, and one adds links. -/
theorem World.handle_tables (op : ServerOp) (w : World) : ∃ sessions agentLinks,
    (World.handle env op w).2.store.db = {
      w.store.db with
      sessions, agentLinks
      permissionRules := w.store.db.permissionRules ++ rulesLeft op (World.handle env op w).1 } ∧
    ((∀ link, op ≠ .store (.createAgentLink link)) → agentLinks = w.store.db.agentLinks) := by
  have hrows : ∀ {db : Database} {sessions : SortedMap String StoredSession},
      db = { w.store.db with sessions } →
        ∃ sessions agentLinks, db = {
          w.store.db with
          sessions, agentLinks, permissionRules := w.store.db.permissionRules ++ [] } ∧
        ((∀ link, op ≠ .store (.createAgentLink link)) → agentLinks = w.store.db.agentLinks) := by
    intro db sessions hdb
    exact ⟨sessions, w.store.db.agentLinks, by rw [hdb, List.append_nil], fun _ => rfl⟩
  have hsame : ∀ {db : Database}, db = w.store.db → _ :=
    fun {db} hdb => @hrows db w.store.db.sessions hdb
  cases op with
  | publish record => exact hsame rfl
  | startWorker sessionId => exact hsame rfl
  | external op => exact hsame rfl
  | store op =>
    cases op with
    | append sessionId events =>
      obtain ⟨sessions, hdb⟩ := appendEvents_tables sessionId (env.stamp w.clock sessionId) events
      exact hrows hdb
    | projection sessionId => exact hsame (projection_tables sessionId)
    | createSession newId now title projectId =>
      obtain ⟨sessions, hdb⟩ := createSession_tables newId now title projectId
      rw [World.handle, perform_createSession]
      exact hrows hdb
    | createPermissionRule rule =>
      rcases transact_createPermissionRule_cases w.store rule with hrule | ⟨e, hrule⟩ <;>
        simp only [World.handle, StoreOp.perform, hrule]
      · exact ⟨w.store.db.sessions, w.store.db.agentLinks, rfl, fun _ => rfl⟩
      · exact hsame rfl
    | createAgentLink link =>
      refine ⟨w.store.db.sessions, (World.handle env (.store (.createAgentLink link)) w
        ).2.store.db.agentLinks, ?_, fun hop => absurd rfl (hop link)⟩
      change (w.store.transact (·.createAgentLink link)).2.db = { w.store.db with
        agentLinks := (w.store.transact (·.createAgentLink link)).2.db.agentLinks
        permissionRules := w.store.db.permissionRules ++ [] }
      rw [List.append_nil]
      unfold Store.transact
      split
      · next db hdb =>
        obtain ⟨-, hdb⟩ := Except.ite_ok_eq_ok.mp hdb
        cases hdb
        rfl
      · rfl
    | runningSessions => exact hsame rfl
    | sessionIds => exact hsame rfl
    | getSession sessionId => exact hsame rfl
    | getProject projectId => exact hsame rfl
    | matchingPermissionRule sessionId projectId agentId toolName => exact hsame rfl
    | agentLinks sessionId => exact hsame rfl

/-- Only the creation of a link changes the links. -/
theorem World.handle_agentLinks (op : ServerOp) (hop : ∀ link, op ≠ .store (.createAgentLink link)) :
    (World.handle env op w).2.store.db.agentLinks = w.store.db.agentLinks := by
  obtain ⟨sessions, agentLinks, hdb, hlinks⟩ := World.handle_tables env op w
  rw [hdb]
  exact hlinks hop

end Keeps

/-! ## Delegation keeps the links -/

/-- What a delegation has read: the configuration, and the request of the parent's run. -/
structure DelegationReads where
  config : Option PiqoConfig
  request : Option RunRequest

section Spawn

variable (parentSessionId parentRunId : String)

/-- A link is created from what was read. -/
def linkAllowed (a : DelegationReads) : ServerOp → Prop
  | .store (.createAgentLink link) => ∃ config request, a.config = some config ∧
      a.request = some request ∧ link.parentSessionId = parentSessionId ∧
      link.parentRunId = parentRunId ∧
      link.permissionCeiling = (permissionCeiling config request).toJson
  | _ => True

def delegationReads (a : DelegationReads) : (op : ServerOp) → op.Reply → DelegationReads
  | .external .configSnapshot, .ok config => { a with config := some config }
  | .store (.projection id), .ok p =>
    if id = parentSessionId then
      { a with request := (p.runs.get? parentRunId).bind fun run => RunRequest.ofJson? run.request }
    else a
  | _, _ => a

variable {parentSessionId parentRunId}

/-- What was read is so. -/
structure ReadsTrue (config : PiqoConfig) (parentSessionId parentRunId : String)
    (a : DelegationReads) (w : World) : Prop where
  sound : w.Sound
  delegated : Delegated config w
  config : ∀ c, a.config = some c → c = config
  request : ∀ request, a.request = some request → ∃ p run, w.view parentSessionId = some p ∧
    p.runs.get? parentRunId = some run ∧ RunRequest.ofJson? run.request = some request

theorem Delegated.of_links {config : PiqoConfig} {env : Surroundings} {w : World}
    (h : Delegated config w) (hw : w.Sound) (op : ServerOp)
    (hlinks : (World.handle env op w).2.store.db.agentLinks = w.store.db.agentLinks) :
    Delegated config (World.handle env op w).2 where
  unique := hlinks ▸ h.unique
  spawned := by
    intro link hlink
    rw [hlinks] at hlink
    obtain ⟨p, run, request, hview, hrun, hrequest, hceiling⟩ := h.spawned link hlink
    obtain ⟨p', run', hview', hrun', hsame⟩ := World.handle_request env hw op hview hrun
    exact ⟨p', run', request, hview', hrun', hsame ▸ hrequest, hceiling⟩

theorem Delegated.add_link {config : PiqoConfig} {w w' : World} (h : Delegated config w)
    {link : AgentLinkRecord} (hadded : w'.store.db.agentLinks = w.store.db.agentLinks ++ [link])
    (hfresh : ∀ other ∈ w.store.db.agentLinks, other.childSessionId ≠ link.childSessionId)
    (hviews : ∀ id, w'.view id = w.view id)
    (hspawned : ∃ p run request, w.view link.parentSessionId = some p ∧
      p.runs.get? link.parentRunId = some run ∧ RunRequest.ofJson? run.request = some request ∧
      link.permissionCeiling = (permissionCeiling config request).toJson) :
    Delegated config w' where
  unique := by
    rw [hadded, List.map_append, List.nodup_append]
    refine ⟨h.unique, by simp, ?_⟩
    intro child hchild child' hchild'
    obtain ⟨other, hother, rfl⟩ := List.mem_map.mp hchild
    rw [List.map_singleton, List.mem_singleton] at hchild'
    rw [hchild']
    exact hfresh other hother
  spawned := by
    intro other hother
    rw [hadded, List.mem_append, List.mem_singleton] at hother
    rcases hother with hother | rfl
    · obtain ⟨p, run, request, hview, hrest⟩ := h.spawned other hother
      exact ⟨p, run, request, (hviews _).trans hview, hrest⟩
    · obtain ⟨p, run, request, hview, hrest⟩ := hspawned
      exact ⟨p, run, request, (hviews _).trans hview, hrest⟩

theorem ReadsTrue.step {config : PiqoConfig} {env : Surroundings}
    (hconfig : ∀ n, env.answer n .configSnapshot = .ok config) (a : DelegationReads) (op : ServerOp)
    (w : World) (h : ReadsTrue config parentSessionId parentRunId a w)
    (hallowed : linkAllowed parentSessionId parentRunId a op) :
    ReadsTrue config parentSessionId parentRunId
      (delegationReads parentSessionId parentRunId a op (World.handle env op w).1)
      (World.handle env op w).2 := by
  have hsound := World.handle_sound env h.sound op
  have hrequest : ∀ request, a.request = some request → ∃ p run,
      (World.handle env op w).2.view parentSessionId = some p ∧
        p.runs.get? parentRunId = some run ∧ RunRequest.ofJson? run.request = some request := by
    intro request ha
    obtain ⟨p, run, hview, hrun, hdecoded⟩ := h.request request ha
    obtain ⟨p', run', hview', hrun', hsame⟩ := World.handle_request env h.sound op hview hrun
    exact ⟨p', run', hview', hrun', hsame ▸ hdecoded⟩
  by_cases hlink : ∃ link, op = .store (.createAgentLink link)
  · obtain ⟨link, rfl⟩ := hlink
    obtain ⟨c, request, hc, ha, hsession, hrun, hceiling⟩ := hallowed
    refine ⟨hsound, ?_, h.config, hrequest⟩
    obtain ⟨hcache, hsessions, hsame | ⟨hadded, hfresh⟩⟩ := transact_createAgentLink w.store link
    · exact h.delegated.of_links h.sound _ hsame
    · refine h.delegated.add_link hadded hfresh (Store.view_congr hcache hsessions) ?_
      obtain ⟨p, run, hview, hget, hdecoded⟩ := h.request request ha
      rw [h.config c hc] at hceiling
      exact ⟨p, run, request, hsession ▸ hview, hrun ▸ hget, hdecoded, hceiling⟩
  · have hdelegated := h.delegated.of_links h.sound op
      (World.handle_agentLinks env op fun link hop => hlink ⟨link, hop⟩)
    have hsame : delegationReads parentSessionId parentRunId a op (World.handle env op w).1 = a →
        ReadsTrue config parentSessionId parentRunId
          (delegationReads parentSessionId parentRunId a op (World.handle env op w).1)
          (World.handle env op w).2 := by
      intro heq
      rw [heq]
      exact ⟨hsound, hdelegated, h.config, hrequest⟩
    cases op with
    | publish record => exact hsame rfl
    | startWorker sessionId => exact hsame rfl
    | external op =>
      cases op with
      | configSnapshot =>
        refine ⟨hsound, hdelegated, ?_, ?_⟩
        · intro c hc
          rw [World.handle, delegationReads.eq_def, hconfig] at hc
          exact (Option.some.inj hc).symm
        · intro request ha
          rw [World.handle, delegationReads.eq_def, hconfig] at ha
          exact hrequest request ha
      | _ => exact hsame rfl
    | store op =>
      cases op with
      | projection id =>
        cases hp : (w.store.projection id).1 with
        | error e =>
          refine hsame ?_
          change delegationReads parentSessionId parentRunId a (.store (.projection id))
            (w.store.projection id).1 = a
          rw [hp]
          rfl
        | ok p =>
          change ReadsTrue config parentSessionId parentRunId
            (delegationReads parentSessionId parentRunId a (.store (.projection id))
              (w.store.projection id).1) _
          rw [hp, delegationReads]
          split
          · next hid =>
            refine ⟨hsound, hdelegated, h.config, fun request ha => ?_⟩
            obtain ⟨run, hrun, hdecoded⟩ := Option.bind_eq_some_iff.mp ha
            have hview := Store.Sound.view_of_projection h.sound hp
            rw [hid] at hview
            exact ⟨p, run, (Store.Sound.view_projection h.sound id _).trans hview, hrun, hdecoded⟩
          · exact ⟨hsound, hdelegated, h.config, hrequest⟩
      | _ => exact hsame rfl

theorem linkAllowed_quiet : Quiet (linkAllowed parentSessionId parentRunId)
    (delegationReads parentSessionId parentRunId) where
  publish _ _ := ⟨trivial, rfl⟩
  worker _ _ := ⟨trivial, rfl⟩
  release _ _ := ⟨trivial, rfl⟩
  shutdown _ _ := ⟨trivial, rfl⟩

/-- A link is created from what was read. -/
theorem admitDelegatedChild_follows (parentCallId : String) (arguments : Json)
    (a : DelegationReads) :
    (admitDelegatedChild parentSessionId parentRunId parentCallId arguments).Follows
      (linkAllowed parentSessionId parentRunId) (delegationReads parentSessionId parentRunId)
      (fun _ _ => True) a := by
  unfold admitDelegatedChild
  refine follows_expect (fun request _ => ?_) trivial
  refine follows_snapshot trivial (fun config => ?_) fun _ _ => trivial
  refine follows_ofExcept (fun child _ => ?_) fun _ _ => trivial
  refine follows_expect (fun provider _ => ?_) trivial
  refine follows_expect (fun model _ => ?_) trivial
  rw [resolveProvider, Program.bind_assoc]
  refine follows_ask trivial fun resolved => ?_
  rcases resolved with (name | message) | resolved <;> try trivial
  refine follows_onStore trivial (fun links => ?_) fun _ => trivial
  refine iteInduction (fun _ => trivial) fun _ => ?_
  refine iteInduction (fun _ => trivial) fun _ => ?_
  refine follows_loadRun trivial (fun p run hrun => ?_) fun _ _ => trivial
  refine follows_expect (fun parentRequest hrequest => ?_) trivial
  refine follows_ofExcept (fun messages _ => ?_) fun _ _ => trivial
  refine iteInduction (fun _ => trivial) fun _ => ?_
  refine follows_onStore trivial (fun session => ?_) fun _ => trivial
  refine follows_ask trivial fun childId => ?_
  refine follows_ask trivial fun now => ?_
  refine follows_onStore trivial (fun childSession => ?_) fun _ => trivial
  refine follows_ask trivial fun instanceId => ?_
  refine follows_ask trivial fun childRunId => ?_
  refine follows_ask trivial fun createdAt => ?_
  refine follows_onStore ?_ (fun _ => trivial) fun _ => trivial
  -- the configuration is the one read first, the request that of the parent's run
  refine ⟨config, parentRequest, ?_, ?_, rfl, rfl, rfl⟩
  · simp [delegationReads]
  · simp [delegationReads, hrun, hrequest]

theorem startDelegatedChild_follows (parentAgentId : String) (d : Delegation)
    (a : DelegationReads) :
    (startDelegatedChild parentAgentId d).Follows
      (linkAllowed parentSessionId parentRunId) (delegationReads parentSessionId parentRunId)
      (fun _ _ => True) a := by
  unfold startDelegatedChild
  have hquiet : Quiet (linkAllowed parentSessionId parentRunId)
      (delegationReads parentSessionId parentRunId) := linkAllowed_quiet
  refine (hquiet.append (Q := fun _ _ => True) trivial (fun _ _ => trivial)
    fun _ _ => trivial).bind ?_ fun _ _ _ => trivial
  intro b record _
  refine follows_ask trivial fun messageId => ?_
  refine (hquiet.appendMany (Q := fun _ _ => True) trivial fun _ => trivial).bind ?_
    fun _ _ _ => trivial
  intro b records _
  refine follows_onStore trivial (fun child => ?_) fun _ => trivial
  refine follows_expect (fun message _ => ?_) trivial
  refine (hquiet.appendMany (Q := fun _ _ => True) trivial fun _ => trivial).bind ?_
    fun _ _ _ => trivial
  intro b records _
  exact hquiet.spawnWorker.mono fun _ _ _ => trivial

/-- On every path of a delegation, a link is created from what was read. -/
theorem spawnDelegatedChild_follows (parentCallId parentAgentId : String) (arguments : Json)
    (a : DelegationReads) :
    (spawnDelegatedChild parentSessionId parentRunId parentCallId parentAgentId arguments).Follows
      (linkAllowed parentSessionId parentRunId) (delegationReads parentSessionId parentRunId)
      (fun _ _ => True) a :=
  (admitDelegatedChild_follows parentCallId arguments a).bind
    (fun b d _ => startDelegatedChild_follows parentAgentId d b) fun _ _ _ => trivial

/-- **Delegation keeps the links.** After `spawnDelegatedChild`, whatever it returned, the links are
still those that delegations create. -/
theorem spawnDelegatedChild_delegated {config : PiqoConfig} {env : Surroundings}
    (hconfig : ∀ n, env.answer n .configSnapshot = .ok config) {w : World} (hw : w.Sound)
    (h : Delegated config w) (parentSessionId parentRunId parentCallId parentAgentId : String)
    (arguments : Json) :
    let w' := ((spawnDelegatedChild parentSessionId parentRunId parentCallId parentAgentId
      arguments).run (World.handle env) w).2
    w'.Sound ∧ Delegated config w' := by
  have hstart : ReadsTrue config parentSessionId parentRunId ⟨none, none⟩ w := by
    refine ⟨hw, h, ?_, ?_⟩
    · intro c hc
      cases hc
    · intro request hrequest
      cases hrequest
  obtain ⟨b, hb, -⟩ := (spawnDelegatedChild_follows parentCallId parentAgentId arguments _).run
    (ReadsTrue.step hconfig) hstart
  exact ⟨hb.sound, hb.delegated⟩

end Spawn

/-- The worlds that delegations lead to under a configuration: links come from
`spawnDelegatedChild` only, and between two delegations anything else may happen. -/
inductive DelegationHistory (config : PiqoConfig) : World → Prop
  | start {w : World} (hw : w.Sound) (hlinks : w.store.db.agentLinks = []) :
    DelegationHistory config w
  | operation {w : World} (env : Surroundings) (op : ServerOp)
      (hop : ∀ link, op ≠ .store (.createAgentLink link)) (h : DelegationHistory config w) :
    DelegationHistory config (World.handle env op w).2
  | spawn {w : World} {env : Surroundings}
      (hconfig : ∀ n, env.answer n .configSnapshot = .ok config)
      (parentSessionId parentRunId parentCallId parentAgentId : String) (arguments : Json)
      (h : DelegationHistory config w) :
    DelegationHistory config ((spawnDelegatedChild parentSessionId parentRunId parentCallId
      parentAgentId arguments).run (World.handle env) w).2

theorem DelegationHistory.delegated {config : PiqoConfig} {w : World}
    (h : DelegationHistory config w) : w.Sound ∧ Delegated config w := by
  induction h with
  | start hw hlinks =>
    refine ⟨hw, ?_, ?_⟩
    · rw [hlinks]
      exact List.nodup_nil
    · intro link hlink
      rw [hlinks] at hlink
      cases hlink
  | operation env op hop _ ih =>
    exact ⟨World.handle_sound env ih.1 op,
      ih.2.of_links ih.1 op (World.handle_agentLinks env op hop)⟩
  | spawn hconfig _ _ _ _ _ _ ih => exact spawnDelegatedChild_delegated hconfig ih.1 ih.2 ..

/-! ## What a child is decided by -/

/-- Deny below Ask below Allow. -/
def PermissionDecision.level : PermissionDecision → Nat
  | .deny => 0
  | .ask => 1
  | .allow => 2

/-- A setting as a decision; a tool without one is denied. -/
def settingLevel : Option PermissionSetting → Nat
  | none | some .deny => 0
  | some .ask => 1
  | some .allow => 2

/-- The setting that the agent of a request has for a tool. -/
def configuredSetting (config : PiqoConfig) (request : RunRequest) (toolName : String) :
    Option PermissionSetting :=
  (config.agent request.agentId).toOption.bind fun agent =>
    permissionSetting agent.permissions toolName

/-- The setting that a request leaves its children for a tool. -/
def ceilingSetting (config : PiqoConfig) (request : RunRequest) (toolName : String) :
    Option PermissionSetting :=
  permissionSetting (permissionCeiling config request) toolName

/-- Every ancestor may do without asking, or may at least ask. -/
def AllAtLeast (config : PiqoConfig) (toolName : String) (level : Nat)
    (ancestors : List RunRequest) : Prop :=
  ∀ ancestor ∈ ancestors, level ≤ settingLevel (configuredSetting config ancestor toolName)

/-- Where the decision exceeds no ancestor, by the child's own setting, what its parent left it,
and whether a durable rule matches. -/
def Narrow (config : PiqoConfig) (toolName : String) (own ceiling : Option PermissionSetting)
    (rule : Bool) (ancestors : List RunRequest) : Prop :=
  match ceiling, own with
  | some .deny, _ | _, some .deny | some _, none => True
  | none, none => rule = true → AllAtLeast config toolName 2 ancestors
  | some .ask, some _ => AllAtLeast config toolName 1 ancestors
  | _, some .allow => AllAtLeast config toolName 2 ancestors
  | _, some .ask => AllAtLeast config toolName (if rule then 2 else 1) ancestors

/-- The decision about one call. -/
theorem toolDecision_narrow_iff (config : PiqoConfig) (toolName : String)
    (own ceiling : Option PermissionSetting) (rule : Option PermissionRuleRecord)
    (ancestors : List RunRequest) :
    AllAtLeast config toolName (toolDecision (combinedSetting own ceiling)
        (if parentAllowsInteractive ceiling then rule else none)).1.level ancestors ↔
      Narrow config toolName own ceiling rule.isSome ancestors := by
  have hzero : AllAtLeast config toolName 0 ancestors := fun _ _ => Nat.zero_le _
  rcases ceiling with _ | (_ | _ | _) <;> rcases own with _ | (_ | _ | _) <;> rcases rule with _ | rule <;>
    simp [toolDecision, combinedSetting, parentAllowsInteractive, mostRestrictivePermission, Narrow,
      PermissionDecision.level, hzero]

/-- The ceiling of a delegated session is what its parent's request leaves. -/
theorem Delegated.ceilingOf {config : PiqoConfig} {w : World} (h : Delegated config w)
    {link : AgentLinkRecord} (hlink : link ∈ w.store.db.agentLinks) {p : SessionProjection}
    {run : RunProjection} {request : RunRequest} (hview : w.view link.parentSessionId = some p)
    (hrun : p.runs.get? link.parentRunId = some run)
    (hrequest : RunRequest.ofJson? run.request = some request) {session : SessionSummary}
    (hsession : w.store.db.getSession link.childSessionId = .ok session) :
    w.store.db.ceilingOf link.childSessionId = .ok (some (permissionCeiling config request)) := by
  have hceiling : link.permissionCeiling = (permissionCeiling config request).toJson := by
    obtain ⟨p', run', request', hview', hrun', hrequest', hceiling⟩ := h.spawned link hlink
    rw [hview] at hview'
    cases hview'
    rw [hrun] at hrun'
    cases hrun'
    rw [hrequest] at hrequest'
    cases hrequest'
    exact hceiling
  rw [Database.ceilingOf, Database.agentLinksOf, hsession]
  set links := List.mergeSort _ _ with hlinks
  -- the links of the session are sorted, but only one of them makes it a child
  have hfind : childLink link.childSessionId links = some link := by
    have hmem : link ∈ links := by
      rw [hlinks, List.mem_mergeSort, List.mem_filter]
      exact ⟨hlink, by simp⟩
    cases hfound : childLink link.childSessionId links with
    | none =>
      have hnone := List.find?_eq_none.mp hfound link hmem
      simp at hnone
    | some other =>
      have hother := List.mem_of_find?_eq_some hfound
      have hchild : other.childSessionId = link.childSessionId := by
        simpa using List.find?_some hfound
      rw [hlinks, List.mem_mergeSort, List.mem_filter] at hother
      rw [List.inj_on_of_nodup_map h.unique hother.1 hlink hchild]
  change linkCeiling (childLink link.childSessionId links) = _
  rw [hfind, linkCeiling, hceiling, AgentPermissions.ofJson_toJson]

/-- **Decisions under delegation.** In a session delegated through a chain of any length, the
decisions about a run's unanswered calls exceed the configured permission of no ancestor exactly
where `Narrow` holds of each call. -/
theorem decideCalls_narrow_iff (config : PiqoConfig) (env : Surroundings) {w : World}
    {sessionId : String} {p : SessionProjection} {run run' : RunProjection}
    {request parent : RunRequest} {ancestors : List RunRequest}
    (hconfig : ∀ n, env.answer n .configSnapshot = .ok config)
    (hhistory : DelegationHistory config w)
    (hlineage : Lineage w sessionId (parent :: ancestors)) (hview : w.view sessionId = some p)
    (hrun : p.runs.get? run.runId = some run')
    (hrequest : RunRequest.ofJson? run.request = some request) :
    ∃ c evaluations, ((decideCalls sessionId run).run (World.handle env) w).1 =
        .ok (c, run', evaluations) ∧
      evaluations.map (·.call) = run'.toolCalls.values.filter (·.result.isNone) ∧
      ((∀ e ∈ evaluations, ∀ ancestor ∈ parent :: ancestors,
          e.decision.level ≤ settingLevel (configuredSetting config ancestor e.call.toolName)) ↔
        ∀ call ∈ run'.toolCalls.values.filter (·.result.isNone),
          Narrow config call.toolName (configuredSetting config request call.toolName)
            (ceilingSetting config parent call.toolName)
            (w.store.db.matchingPermissionRule sessionId
              ((w.store.db.getSession sessionId).toOption.bind (·.projectId)) request.agentId
              (ruleToolName call.toolName)).isSome
            (parent :: ancestors)) := by
  obtain ⟨hw, hdelegated⟩ := hhistory.delegated
  obtain ⟨s, hs, -⟩ := Store.Sound.coherent_view hw hview
  have hsession : w.store.db.getSession sessionId = .ok s.summary := by
    rw [Database.getSession, hs]
  have hceiling : w.store.db.ceilingOf sessionId =
      .ok (some (permissionCeiling config parent)) := by
    cases hlineage with
    | cons hlink hparent hrun hdecoded _ =>
      exact hdelegated.ceilingOf hlink hparent hrun hdecoded hsession
  obtain ⟨times, w', hdecide, -, hlength, -⟩ :=
    decideCalls_run env hconfig hw hview hsession hrun hrequest hceiling
  refine ⟨_, _, congrArg Prod.fst hdecide, map_zipWith_left (fun _ _ => rfl) hlength.symm, ?_⟩
  refine forall_mem_zipWith_iff (fun call n => ?_) hlength.symm
  rw [← toolDecision_narrow_iff, hsession]
  rfl

/-! ## A child that may do more -/

/-- A lead that delegates, and a worker that may run shell commands; `lead` says what the lead may
do with the shell. -/
def leadConfig (lead : Option PermissionSetting) : PiqoConfig where
  agents := ((∅ : SortedMap String AgentConfigOverride).insert "lead"
      { permissions := some { bash := lead } }).insert "worker"
    { provider := some "p", model := some "m", permissions := some { bash := some .allow } }

def leadRequest : RunRequest where
  provider := "p"
  model := "m"
  input := .str "hi"
  agent := some "lead"
  variant := none
  body := .null

/-- A session with a run of the lead. -/
def leadStart : World where
  store := (Store.ofDatabase (.empty ∅)).executeAll
    [.createSessionWithRetention "s" "t0" none none .forever,
      .appendEvents "s" (fun _ => "t1") [.runQueued "r" none "p" "m" leadRequest.toJson]]
  published := []
  workers := []
  clock := 0

/-- The lead has delegated to the worker. -/
def leadSpawned (lead : Option PermissionSetting) : World :=
  ((spawnDelegatedChild "s" "r" "c" "a" (.object [("agent", .str "worker"), ("task", .str "t"),
    ("context_message_ids", .arr [])])).run (World.handle (.plain (leadConfig lead))) leadStart).2

/-- The worker has called the shell. -/
def leadWorld (lead : Option PermissionSetting) : World :=
  (World.handle (.plain (leadConfig lead)) (.store (.append "id-5"
    [.runStarted "id-9" "t" 1, .toolCallEmitted "id-9" "m" "c1" "a" "bash" .null "" true]))
    (leadSpawned lead)).2

theorem leadWorld_history (lead : Option PermissionSetting) :
    DelegationHistory (leadConfig lead) (leadWorld lead) := by
  have hstart : leadStart.Sound := (Store.Sound.empty _).executeAll _
  refine .operation _ _ (fun link hlink => ?_) (.spawn (fun _ => rfl) _ _ _ _ _ (.start hstart rfl))
  cases hlink

/-- The run of the worker. -/
def leadRun (lead : Option PermissionSetting) : Option RunProjection :=
  ((leadWorld lead).view "id-5").bind (·.runs.get? "id-9")

/-- The decisions about its calls. -/
def leadDecisions (lead : Option PermissionSetting) :
    Option (List (String × PermissionDecision)) :=
  (leadRun lead).bind fun run =>
    ((decideCalls "id-5" run).run (World.handle (.plain (leadConfig lead)))
      (leadWorld lead)).1.toOption.map fun r => r.2.2.map fun e => (e.call.toolName, e.decision)

theorem leadWorld_lineage {lead : Option PermissionSetting}
    (hlinks : (leadWorld lead).store.db.agentLinks.map
      (fun l => (l.childSessionId, l.parentSessionId, l.parentRunId)) = [("id-5", "s", "r")])
    (hrequest : (((leadWorld lead).view "s").bind fun p => (p.runs.get? "r").bind fun run =>
      RunRequest.ofJson? run.request) = some leadRequest) :
    Lineage (leadWorld lead) "id-5" [leadRequest] := by
  obtain ⟨link, hlink, hfields⟩ : ∃ link ∈ (leadWorld lead).store.db.agentLinks,
      (link.childSessionId, link.parentSessionId, link.parentRunId) = ("id-5", "s", "r") := by
    rw [← List.mem_map, hlinks]
    exact List.mem_singleton_self _
  obtain ⟨p, hview, hrun⟩ := Option.bind_eq_some_iff.mp hrequest
  obtain ⟨run, hrun, hdecoded⟩ := Option.bind_eq_some_iff.mp hrun
  simp only [Prod.mk.injEq] at hfields
  obtain ⟨hchild, hparent, hparentRun⟩ := hfields
  rw [← hchild]
  exact .cons hlink (hparent ▸ hview) (hparentRun ▸ hrun) hdecoded (.nil _)

theorem leadDecisions_eq_some {lead : Option PermissionSetting}
    {decisions : List (String × PermissionDecision)} (h : leadDecisions lead = some decisions) :
    ∃ p run c evaluations, (leadWorld lead).view "id-5" = some p ∧
      p.runs.get? "id-9" = some run ∧
      ((decideCalls "id-5" run).run (World.handle (.plain (leadConfig lead)))
        (leadWorld lead)).1 = .ok (c, evaluations) ∧
      evaluations.2.map (fun e => (e.call.toolName, e.decision)) = decisions := by
  obtain ⟨run, hrun, hdecisions⟩ := Option.bind_eq_some_iff.mp h
  obtain ⟨p, hview, hrun⟩ := Option.bind_eq_some_iff.mp hrun
  obtain ⟨⟨c, evaluations⟩, hdecide, heq⟩ := Option.map_eq_some_iff.mp hdecisions
  refine ⟨p, run, c, evaluations, hview, hrun, ?_, heq⟩
  cases hresult : ((decideCalls "id-5" run).run (World.handle (.plain (leadConfig lead)))
      (leadWorld lead)).1 with
  | error e => rw [hresult] at hdecide; cases hdecide
  | ok r => rw [hresult] at hdecide; cases hdecide; rfl

/-- The lead has no permission for the shell, and its worker's call is allowed. -/
theorem decideCalls_widened :
    DelegationHistory (leadConfig none) (leadWorld none) ∧
    Lineage (leadWorld none) "id-5" [leadRequest] ∧
    configuredSetting (leadConfig none) leadRequest "bash" = none ∧
    ∃ p run c evaluations, (leadWorld none).view "id-5" = some p ∧
      p.runs.get? "id-9" = some run ∧
      ((decideCalls "id-5" run).run (World.handle (.plain (leadConfig none)))
        (leadWorld none)).1 = .ok (c, evaluations) ∧
      ∃ e ∈ evaluations.2, e.call.toolName = "bash" ∧ e.decision = .allow ∧
        ¬ e.decision.level ≤
          settingLevel (configuredSetting (leadConfig none) leadRequest e.call.toolName) := by
  refine ⟨leadWorld_history none, ?_, by decide +kernel, ?_⟩
  · exact leadWorld_lineage (by decide +kernel) (by decide +kernel)
  · have hdecisions : leadDecisions none = some [("bash", .allow)] := by decide +kernel
    obtain ⟨p, run, c, evaluations, hview, hrun, hdecide, hmap⟩ := leadDecisions_eq_some hdecisions
    refine ⟨p, run, c, evaluations, hview, hrun, hdecide, ?_⟩
    obtain ⟨e, he, hpair⟩ : ∃ e ∈ evaluations.2, (e.call.toolName, e.decision) = ("bash", .allow) := by
      rw [← List.mem_map, hmap]
      exact List.mem_singleton_self _
    simp only [Prod.mk.injEq] at hpair
    refine ⟨e, he, hpair.1, hpair.2, ?_⟩
    rw [hpair.1, hpair.2]
    decide +kernel

/-- What `startDelegatedChild` asks of the worker. -/
def workerRequest : RunRequest where
  provider := "p"
  model := "m"
  input := .str "t"
  agent := some "worker"
  variant := none
  body := .obj []

/-- With a lead that may use the shell, the worker's call is allowed within what the lead may do. -/
theorem decideCalls_narrow_iff_lead :
    ∃ run c evaluations, ((decideCalls "id-5" run).run
        (World.handle (.plain (leadConfig (some .allow)))) (leadWorld (some .allow))).1 =
        .ok (c, run, evaluations) ∧
      evaluations.map (·.call.toolName) = ["bash"] ∧
      ∀ e ∈ evaluations, ∀ ancestor ∈ [leadRequest], e.decision.level ≤
        settingLevel (configuredSetting (leadConfig (some .allow)) ancestor e.call.toolName) := by
  have hfacts : (leadRun (some .allow)).map (fun run => (run.runId, RunRequest.ofJson? run.request,
      (run.toolCalls.values.filter (·.result.isNone)).map (·.toolName))) =
      some ("id-9", some workerRequest, ["bash"]) := by
    decide +kernel
  obtain ⟨run, hleadRun, hfields⟩ := Option.map_eq_some_iff.mp hfacts
  obtain ⟨p, hview, hrun⟩ := Option.bind_eq_some_iff.mp hleadRun
  simp only [Prod.mk.injEq] at hfields
  obtain ⟨hid, hrequest, hcalls⟩ := hfields
  rw [← hid] at hrun
  obtain ⟨c, evaluations, hdecide, hmap, hiff⟩ := decideCalls_narrow_iff
    (leadConfig (some .allow)) (.plain (leadConfig (some .allow))) (fun _ => rfl)
    (leadWorld_history (some .allow)) (leadWorld_lineage (by decide +kernel) (by decide +kernel)) hview hrun hrequest
  refine ⟨run, c, evaluations, hdecide, ?_, hiff.mpr ?_⟩
  · rw [← hcalls, ← hmap, List.map_map]
    rfl
  · intro call hcall
    have hname : call.toolName = "bash" := by
      have hmem := List.mem_map_of_mem (f := (·.toolName)) hcall
      rw [hcalls] at hmem
      exact List.mem_singleton.mp hmem
    have hown : configuredSetting (leadConfig (some .allow)) workerRequest "bash" = some .allow := by
      decide +kernel
    have hceiling : ceilingSetting (leadConfig (some .allow)) leadRequest "bash" = some .allow := by
      decide +kernel
    have hlead : configuredSetting (leadConfig (some .allow)) leadRequest "bash" = some .allow := by
      decide +kernel
    rw [hname, hown, hceiling]
    intro ancestor hancestor
    rw [List.mem_singleton.mp hancestor, hlead]
    rfl

end Piqo
