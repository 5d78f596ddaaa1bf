import PiqoServer.Server.Actions
import PiqoServer.Storage.View

/-!
# Running the supervisor's programs

One spec lemma per building block: what it returns, and what it leaves of the world. A block that
reads leaves what every session shows, the tables and the workers as they are; a block that
appends to a session touches nothing but its log.

## Main definitions

* `World.Sound`, `World.view`: a world whose store is sound, and what it shows of a session
* `World.Reads`, `World.Touches`: what a block may change

## Main results

* `loadRun_run`, `getSession_run`, …: the blocks that read
* `appendMany_run`, `append_run`, `appendMany_run_error`: the blocks that append
-/

namespace Piqo

namespace World

variable {w w' w'' : World} {sessionId : String}

/-- The store agrees with its logs. -/
def Sound (w : World) : Prop := w.store.Sound

/-- What is shown of a session. -/
def view (w : World) (sessionId : String) : Option SessionProjection := w.store.view sessionId

def tick (w : World) : World := { w with clock := w.clock + 1 }

/-- Nothing but the cache and the number of operations differs. -/
structure Reads (w w' : World) : Prop where
  sound : w.Sound → w'.Sound
  view : ∀ id, w'.view id = w.view id
  db : w'.store.db = w.store.db
  workers : w'.workers = w.workers

/-- Only the log of a session differs, and the events published. -/
structure Touches (sessionId : String) (w w' : World) : Prop where
  store : w.store.Touches sessionId w'.store
  workers : w'.workers = w.workers

theorem Reads.refl (w : World) : w.Reads w := ⟨id, fun _ => rfl, rfl, rfl⟩

theorem Reads.trans (h : w.Reads w') (h' : w'.Reads w'') : w.Reads w'' where
  sound hw := h'.sound (h.sound hw)
  view id := (h'.view id).trans (h.view id)
  db := h'.db.trans h.db
  workers := h'.workers.trans h.workers

theorem reads_tick (w : World) : w.Reads w.tick := ⟨id, fun _ => rfl, rfl, rfl⟩

theorem Reads.touches (h : w.Reads w') (sessionId : String) : w.Touches sessionId w' where
  store := by
    refine ⟨fun id _ => h.view id, ?_, ?_, fun id => ?_⟩
    · rw [h.db]
    · rw [h.db]
    · rw [h.db]
  workers := h.workers

theorem Touches.refl (sessionId : String) (w : World) : w.Touches sessionId w :=
  (Reads.refl w).touches sessionId

theorem Touches.trans (h : w.Touches sessionId w') (h' : w'.Touches sessionId w'') :
    w.Touches sessionId w'' :=
  ⟨h.store.trans h'.store, h'.workers.trans h.workers⟩

end World

variable (env : Surroundings) {w : World} {sessionId runId : String} {p q : SessionProjection}

/-! ## Reading -/

theorem ask_run (op : ExternalOp) (w : World) :
    (ask op).run (World.handle env) w = (.ok (env.answer w.clock op), w.tick) := rfl

theorem getSession_run {session : SessionSummary}
    (h : w.store.db.getSession sessionId = .ok session) :
    (onStore (.getSession sessionId)).run (World.handle env) w = (.ok session, w.tick) := by
  simp only [onStore, Program.run_call, World.handle, StoreOp.perform, h]
  rfl

theorem projection_run (hw : w.Sound) (hview : w.view sessionId = some p) :
    ∃ w', (onStore (.projection sessionId)).run (World.handle env) w = (.ok p, w') ∧
      w.Reads w' := by
  obtain ⟨hsound, hviews, hdb⟩ := Store.Sound.touches_projection hw hview
  refine ⟨{ w with
    store := { w.store with projectionCache := w.store.projectionCache.insert sessionId p }
    clock := w.clock + 1 }, ?_, fun _ => hsound, hviews, hdb, rfl⟩
  simp only [onStore, Program.run_call, World.handle, StoreOp.perform,
    Store.Sound.projection_view hw hview]
  rfl

theorem loadRun_run (hw : w.Sound) (hview : w.view sessionId = some p) {run : RunProjection}
    (hrun : p.runs.get? runId = some run) :
    ∃ w', (loadRun sessionId runId).run (World.handle env) w = (.ok (p, run), w') ∧
      w.Reads w' := by
  obtain ⟨w', hprojection, hreads⟩ := projection_run env hw hview
  refine ⟨w', ?_, hreads⟩
  rw [loadRun, Program.run_bind_ok _ hprojection, hrun]
  rfl

theorem configuredAgent_run {config : PiqoConfig}
    (hconfig : ∀ n, env.answer n .configSnapshot = .ok config) (name : String) (w : World) :
    (configuredAgent name).run (World.handle env) w =
      (.ok (config.agent name).toOption, w.tick) := by
  rw [configuredAgent, Program.run_bind_ok _ (ask_run env .configSnapshot w), hconfig]
  rfl

theorem snapshot_run {config : PiqoConfig}
    (hconfig : ∀ n, env.answer n .configSnapshot = .ok config) (w : World) :
    snapshot.run (World.handle env) w = (.ok config, w.tick) := by
  rw [snapshot, Program.run_bind_ok _ (ask_run env .configSnapshot w), hconfig]
  rfl

/-- An append leaves the projects of the sessions. -/
theorem World.Touches.getSession {w w' : World} {id sessionId : String} (h : w.Touches id w')
    {session : SessionSummary}
    (hsession : w.store.db.getSession sessionId = .ok session) :
    ∃ session', w'.store.db.getSession sessionId = .ok session' ∧
      session'.projectId = session.projectId := by
  rw [Database.getSession] at hsession
  have hsame := h.store.projects sessionId
  cases hget : w.store.db.sessions.get? sessionId with
  | none =>
    rw [hget] at hsession
    cases hsession
  | some s =>
    rw [hget] at hsession hsame
    cases hsession
    obtain ⟨s', hs', hproject⟩ := Option.map_eq_some_iff.mp hsame
    exact ⟨s'.summary, by rw [Database.getSession, hs'], hproject⟩

theorem onStore_run (op : StoreOp) (w : World) :
    (onStore op).run (World.handle env) w = World.handle env (.store op) w := by
  rw [onStore, Program.run_call, Program.run_ofExcept]

/-! ## Appending -/

theorem releaseTerminalAdmission_run (event : SemanticEvent) (w : World) :
    ∃ w', (releaseTerminalAdmission event).run (World.handle env) w = (.ok (), w') ∧
      w'.store = w.store ∧ w'.workers = w.workers := by
  unfold releaseTerminalAdmission
  cases terminalRun event with
  | none => exact ⟨w, rfl, rfl, rfl⟩
  | some runId => exact ⟨w.tick, rfl, rfl, rfl⟩

theorem publishAll_run (records : List RecordedEvent) (w : World) :
    ∃ w', (publishAll records).run (World.handle env) w = (.ok (), w') ∧
      w'.store = w.store ∧ w'.workers = w.workers := by
  induction records generalizing w with
  | nil => exact ⟨w, rfl, rfl, rfl⟩
  | cons record records ih =>
    obtain ⟨w₁, hrelease, hstore₁, hworkers₁⟩ := releaseTerminalAdmission_run env record.event
      { w with published := w.published ++ [record], clock := w.clock + 1 }
    obtain ⟨w₂, hrest, hstore₂, hworkers₂⟩ := ih w₁
    refine ⟨w₂, ?_, hstore₂.trans hstore₁, hworkers₂.trans hworkers₁⟩
    rw [publishAll]
    change (releaseTerminalAdmission record.event >>= fun _ => publishAll records).run _
      { w with published := w.published ++ [record], clock := w.clock + 1 } = _
    rw [Program.run_bind_ok _ hrelease, hrest]

/-- The store appends events that the session accepts. -/
theorem storeAppend_run (hw : w.Sound) (hview : w.view sessionId = some p)
    {events : List SemanticEvent} (happly : p.applyAll events = .ok q) :
    ∃ records w', (onStore (.append sessionId events)).run (World.handle env) w =
        (.ok records, w') ∧
      w'.Sound ∧ w'.view sessionId = some q ∧ w.Touches sessionId w' ∧
      records.length = events.length := by
  obtain ⟨records, store', happend, hsound, hview', htouches, hlength⟩ :=
    Store.Sound.appendEvents_ok hw hview (env.stamp w.clock sessionId) happly
  refine ⟨records, { w with store := store', clock := w.clock + 1 }, ?_, hsound, hview',
    ⟨htouches, rfl⟩, hlength⟩
  simp only [onStore, Program.run_call, World.handle, StoreOp.perform, happend]
  rfl

/-- The store refuses events that it does not accept. -/
theorem storeAppend_run_error (hw : w.Sound) (hview : w.view sessionId = some p)
    {events : List SemanticEvent} {e : ProjectionError} (happly : p.applyAll events = .error e) :
    (onStore (.append sessionId events)).run (World.handle env) w =
      (.error (.invalidTransition e), w.tick) := by
  simp only [onStore, Program.run_call, World.handle, StoreOp.perform,
    Store.Sound.appendEvents_error hw hview _ happly]
  rfl

theorem World.handle_sound (hw : w.Sound) (op : ServerOp) : (World.handle env op w).2.Sound := by
  cases op with
  | store op => exact Store.Sound.perform hw _ op
  | publish record => exact hw
  | startWorker sessionId => exact hw
  | external op => exact hw

theorem World.run_sound {α : Type} (hw : w.Sound) (program : ServerProgram α) :
    (program.run (World.handle env) w).2.Sound :=
  Program.run_preserves (I := World.Sound) _ (fun op _ hw => World.handle_sound env hw op) program hw

/-- An append changes what is shown of its session as the events say, or nothing. -/
theorem World.handle_append_view (hw : w.Sound) (sessionId : String) (events : List SemanticEvent) :
    let w' := (World.handle env (.store (.append sessionId events)) w).2
    (∀ id, w'.view id = w.view id) ∨
      ∃ p q, w.view sessionId = some p ∧ p.applyAll events = .ok q ∧ w'.view sessionId = some q ∧
        ∀ id ≠ sessionId, w'.view id = w.view id := by
  intro w'
  cases hview : w.view sessionId with
  | none =>
    refine .inl fun id => congrArg (Store.view · id) ?_
    exact (Store.Sound.appendEvents_missing hw hview events (env.stamp w.clock sessionId)).1
  | some p =>
    cases happly : p.applyAll events with
    | error e =>
      refine .inl fun id => ?_
      have herror := Store.Sound.appendEvents_error hw hview (env.stamp w.clock sessionId) happly
      exact congrArg (fun r : Except StoreError (List RecordedEvent) × Store => r.2.view id) herror
    | ok q =>
      obtain ⟨records, store', happend, -, hview', htouches, -⟩ :=
        Store.Sound.appendEvents_ok hw hview (env.stamp w.clock sessionId) happly
      have hstore : ∀ id, w'.view id = store'.view id := fun id =>
        congrArg (fun r : Except StoreError (List RecordedEvent) × Store => r.2.view id) happend
      exact .inr ⟨p, q, rfl, happly, (hstore _).trans hview',
        fun id hid => (hstore id).trans (htouches.views id hid)⟩

/-- Publishing leaves the store and the workers. -/
theorem World.Touches.published {w₁ w₂ : World} (h : w.Touches sessionId w₁)
    (hstore : w₂.store = w₁.store) (hworkers : w₂.workers = w₁.workers) :
    w.Touches sessionId w₂ :=
  ⟨hstore ▸ h.store, hworkers.trans h.workers⟩

/-- Appending events that the session accepts. -/
theorem appendMany_run (hw : w.Sound) (hview : w.view sessionId = some p)
    {events : List SemanticEvent} (happly : p.applyAll events = .ok q) :
    ∃ records w', (appendMany sessionId events).run (World.handle env) w = (.ok records, w') ∧
      w'.Sound ∧ w'.view sessionId = some q ∧ w.Touches sessionId w' := by
  obtain ⟨records, w₁, hstored, hsound, hview₁, htouches, -⟩ := storeAppend_run env hw hview happly
  obtain ⟨w₂, hpublish, hstore, hworkers⟩ := publishAll_run env records w₁
  refine ⟨records, w₂, ?_, ?_, ?_, htouches.published hstore hworkers⟩
  · rw [appendMany, Program.run_bind_ok _ hstored, Program.run_bind_ok _ hpublish]
    rfl
  · rw [World.Sound, hstore]
    exact hsound
  · rw [World.view, hstore]
    exact hview₁

/-- Appending events that it does not accept. -/
theorem appendMany_run_error (hw : w.Sound) (hview : w.view sessionId = some p)
    {events : List SemanticEvent} {e : ProjectionError} (happly : p.applyAll events = .error e) :
    (appendMany sessionId events).run (World.handle env) w =
      (.error (.invalidTransition e), w.tick) := by
  rw [appendMany, Program.run_bind_error _ (storeAppend_run_error env hw hview happly)]

/-- Appending one event that the session accepts. -/
theorem append_run (hw : w.Sound) (hview : w.view sessionId = some p) {event : SemanticEvent}
    (happly : p.applyAll [event] = .ok q) :
    ∃ record w', (append sessionId event).run (World.handle env) w = (.ok record, w') ∧
      w'.Sound ∧ w'.view sessionId = some q ∧ w.Touches sessionId w' := by
  obtain ⟨records, w₁, hstored, hsound, hview₁, htouches, hlength⟩ :=
    storeAppend_run env hw hview happly
  obtain ⟨record, rfl⟩ := List.length_eq_one_iff.mp hlength
  obtain ⟨w₂, hpublish, hstore, hworkers⟩ := publishAll_run env [record] w₁
  refine ⟨record, w₂, ?_, ?_, ?_, htouches.published hstore hworkers⟩
  · rw [append, Program.run_bind_ok _ hstored]
    simp only
    rw [Program.run_bind_ok _ hpublish]
    rfl
  · rw [World.Sound, hstore]
    exact hsound
  · rw [World.view, hstore]
    exact hview₁

/-- Appending one event that it does not accept. -/
theorem append_run_error (hw : w.Sound) (hview : w.view sessionId = some p) {event : SemanticEvent}
    {e : ProjectionError} (happly : p.applyAll [event] = .error e) :
    (append sessionId event).run (World.handle env) w =
      (.error (.invalidTransition e), w.tick) := by
  rw [append, Program.run_bind_error _ (storeAppend_run_error env hw hview happly)]

/-- An append that succeeds appends an event that the session accepts. -/
theorem append_eq_ok (hw : w.Sound) (hview : w.view sessionId = some p) {event : SemanticEvent}
    {record : RecordedEvent} {w' : World}
    (h : (append sessionId event).run (World.handle env) w = (.ok record, w')) :
    ∃ q, p.applyAll [event] = .ok q ∧ w'.Sound ∧ w'.view sessionId = some q ∧
      w.Touches sessionId w' := by
  cases happly : p.applyAll [event] with
  | error e =>
    rw [append_run_error env hw hview happly] at h
    cases h
  | ok q =>
    obtain ⟨record', w'', hrun, hrest⟩ := append_run env hw hview happly
    rw [hrun] at h
    cases h
    exact ⟨q, rfl, hrest⟩

/-- A projection that is read is what is shown. -/
theorem projection_eq_ok (hw : w.Sound) (hview : w.view sessionId = some p) {w' : World}
    (h : (onStore (.projection sessionId)).run (World.handle env) w = (.ok q, w')) :
    q = p ∧ w.Reads w' := by
  obtain ⟨w'', hrun, hreads⟩ := projection_run env hw hview
  rw [hrun] at h
  cases h
  exact ⟨rfl, hreads⟩

/-! ## What a run performs -/

/-- The operation commits the event. -/
def Commits (env : Surroundings) (c : World × ServerOp) (e : SemanticEvent) : Prop :=
  ∃ sessionId events records, c.2 = .store (.append sessionId events) ∧ e ∈ events ∧
    (World.handle env (.store (.append sessionId events)) c.1).1 = .ok records

/-- The operations that follow an append. -/
def ServerOp.announces : ServerOp → Bool
  | .publish _ | .external (.releaseAdmission _) => true
  | _ => false

theorem publishAll_calls {records : List RecordedEvent} {c : World × ServerOp}
    (h : c ∈ (publishAll records).calls (World.handle env) w) : c.2.announces = true := by
  induction records generalizing w with
  | nil => exact absurd h List.not_mem_nil
  | cons record records ih =>
    rcases List.mem_cons.mp h with rfl | h
    · rfl
    · change c ∈ (releaseTerminalAdmission record.event >>= fun _ => publishAll records).calls _ _
        at h
      unfold releaseTerminalAdmission at h
      cases hterminal : terminalRun record.event with
      | none =>
        rw [hterminal] at h
        exact ih h
      | some runId =>
        rw [hterminal] at h
        rcases List.mem_cons.mp h with rfl | h
        · rfl
        · exact ih h

/-- An append calls the store, and then announces what it has committed. -/
theorem appendMany_calls {events : List SemanticEvent} {c : World × ServerOp}
    (h : c ∈ (appendMany sessionId events).calls (World.handle env) w) :
    c = (w, .store (.append sessionId events)) ∨ c.2.announces = true := by
  rcases List.mem_cons.mp h with rfl | h
  · exact .inl rfl
  · refine .inr ?_
    dsimp only at h
    cases hreply : (World.handle env (.store (.append sessionId events)) w).1 with
    | error e =>
      rw [hreply] at h
      exact absurd h List.not_mem_nil
    | ok records =>
      rw [hreply] at h
      change c ∈ (publishAll records >>= fun _ => Program.ret records).calls _ _ at h
      rw [Program.calls_bind, List.mem_append] at h
      rcases h with h | h
      · exact publishAll_calls env h
      · split at h <;> exact absurd h List.not_mem_nil

theorem append_calls {event : SemanticEvent} {c : World × ServerOp}
    (h : c ∈ (append sessionId event).calls (World.handle env) w) :
    c = (w, .store (.append sessionId [event])) ∨ c.2.announces = true := by
  rcases List.mem_cons.mp h with rfl | h
  · exact .inl rfl
  · refine .inr ?_
    dsimp only at h
    cases hreply : (World.handle env (.store (.append sessionId [event])) w).1 with
    | error e =>
      rw [hreply] at h
      exact absurd h List.not_mem_nil
    | ok records =>
      rw [hreply] at h
      cases records with
      | nil => exact absurd h List.not_mem_nil
      | cons record records =>
        change c ∈ (publishAll [record] >>= fun _ => Program.ret record).calls _ _ at h
        rw [Program.calls_bind, List.mem_append] at h
        rcases h with h | h
        · exact publishAll_calls env h
        · split at h <;> exact absurd h List.not_mem_nil

/-- A store operation calls nothing else. -/
theorem onStore_calls {op : StoreOp} {c : World × ServerOp}
    (h : c ∈ (onStore op).calls (World.handle env) w) : c = (w, .store op) := by
  rcases List.mem_cons.mp h with rfl | h
  · rfl
  · dsimp only at h
    cases hreply : (World.handle env (.store op) w).1 <;> rw [hreply] at h <;>
      exact absurd h List.not_mem_nil

section Obeys

variable {env} {α β : Type} {H : World × ServerOp → Prop} {Q : Except StoreError β → World → Prop}

theorem ask_obeys {op : ExternalOp} {f : op.Reply → ServerProgram β} (hop : H (w, .external op))
    (h : (f (env.answer w.clock op)).Obeys (World.handle env) H Q w.tick) :
    (ask op >>= f).Obeys (World.handle env) H Q w :=
  .call hop h

/-- A store operation, whatever it replies. -/
theorem onStore_obeys {op : StoreOp} {f : op.Result → ServerProgram β} (hop : H (w, .store op))
    (hok : ∀ v, (World.handle env (.store op) w).1 = .ok v →
      (f v).Obeys (World.handle env) H Q (World.handle env (.store op) w).2)
    (herror : ∀ e, (World.handle env (.store op) w).1 = .error e →
      Q (.error e) (World.handle env (.store op) w).2) :
    (onStore op >>= f).Obeys (World.handle env) H Q w := by
  refine .call hop ?_
  cases hreply : (World.handle env (.store op) w).1 with
  | ok v => exact hok v hreply
  | error e => exact ⟨fun c hc => absurd hc List.not_mem_nil, herror e hreply⟩

theorem expect_obeys {e : StoreError} {o : Option α} {f : α → ServerProgram β}
    (hsome : ∀ v, o = some v → (f v).Obeys (World.handle env) H Q w)
    (hnone : o = none → Q (.error e) w) :
    (expect e o >>= f).Obeys (World.handle env) H Q w := by
  cases o with
  | some v => exact hsome v rfl
  | none => exact ⟨fun c hc => absurd hc List.not_mem_nil, hnone rfl⟩

theorem projection_obeys (hw : w.Sound) {f : SessionProjection → ServerProgram β}
    (hop : H (w, .store (.projection sessionId)))
    (hok : ∀ p w', w.view sessionId = some p → w.Reads w' →
      (f p).Obeys (World.handle env) H Q w')
    (herror : ∀ e w', w.Reads w' → Q (.error e) w') :
    (onStore (.projection sessionId) >>= f).Obeys (World.handle env) H Q w := by
  cases hview : w.view sessionId with
  | some p =>
    obtain ⟨w', hrun, hreads⟩ := projection_run env hw hview
    refine .bind_of_run hrun (fun c hc => ?_) (hok p w' hview hreads)
    rw [onStore_calls env hc]
    exact hop
  | none =>
    have hmissing : World.handle env (.store (.projection sessionId)) w =
        (.error (.sessionNotFound sessionId), w.tick) := by
      simp only [World.handle, StoreOp.perform, Store.Sound.projection_missing hw hview]
      rfl
    refine onStore_obeys hop (fun v hv => ?_) fun e he => ?_
    · rw [hmissing] at hv
      cases hv
    · rw [hmissing]
      exact herror e w.tick (World.reads_tick w)

theorem loadRun_obeys (hw : w.Sound) {f : SessionProjection × RunProjection → ServerProgram β}
    (hop : H (w, .store (.projection sessionId)))
    (hok : ∀ p run w', w.view sessionId = some p → p.runs.get? runId = some run → w.Reads w' →
      (f (p, run)).Obeys (World.handle env) H Q w')
    (herror : ∀ e w', w.Reads w' → Q (.error e) w') :
    (loadRun sessionId runId >>= f).Obeys (World.handle env) H Q w := by
  rw [loadRun, Program.bind_assoc]
  refine projection_obeys hw hop (fun p w' hview hreads => ?_) herror
  rw [Program.bind_assoc]
  exact expect_obeys (fun run hrun => hok p run w' hview hrun hreads)
    fun _ => herror _ w' hreads

/-- An append that the session accepts, or does not. -/
theorem appendMany_obeys (hw : w.Sound) (hview : w.view sessionId = some p)
    {events : List SemanticEvent} {f : List RecordedEvent → ServerProgram β}
    (hop : H (w, .store (.append sessionId events)))
    (hannounces : ∀ c : World × ServerOp, c.2.announces = true → H c)
    (hok : ∀ q records w', p.applyAll events = .ok q → w'.Sound → w'.view sessionId = some q →
      w.Touches sessionId w' → (f records).Obeys (World.handle env) H Q w')
    (herror : ∀ e, p.applyAll events = .error e → Q (.error (.invalidTransition e)) w.tick) :
    (appendMany sessionId events >>= f).Obeys (World.handle env) H Q w := by
  have hcalls : ∀ c ∈ (appendMany sessionId events).calls (World.handle env) w, H c := by
    intro c hc
    rcases appendMany_calls env hc with rfl | hc
    · exact hop
    · exact hannounces c hc
  cases happly : p.applyAll events with
  | ok q =>
    obtain ⟨records, w', hrun, hsound, hview', htouches⟩ := appendMany_run env hw hview happly
    exact .bind_of_run hrun hcalls (hok q records w' happly hsound hview' htouches)
  | error e =>
    have hrun := appendMany_run_error env hw hview happly
    rw [Program.Obeys, Program.calls_bind, Program.run_bind, hrun, List.append_nil]
    exact ⟨hcalls, herror e happly⟩

theorem append_obeys (hw : w.Sound) (hview : w.view sessionId = some p) {event : SemanticEvent}
    {f : RecordedEvent → ServerProgram β} (hop : H (w, .store (.append sessionId [event])))
    (hannounces : ∀ c : World × ServerOp, c.2.announces = true → H c)
    (hok : ∀ q record w', p.applyAll [event] = .ok q → w'.Sound → w'.view sessionId = some q →
      w.Touches sessionId w' → (f record).Obeys (World.handle env) H Q w')
    (herror : ∀ e, p.applyAll [event] = .error e → Q (.error (.invalidTransition e)) w.tick) :
    (append sessionId event >>= f).Obeys (World.handle env) H Q w := by
  have hcalls : ∀ c ∈ (append sessionId event).calls (World.handle env) w, H c := by
    intro c hc
    rcases append_calls env hc with rfl | hc
    · exact hop
    · exact hannounces c hc
  cases happly : p.applyAll [event] with
  | ok q =>
    obtain ⟨record, w', hrun, hsound, hview', htouches⟩ := append_run env hw hview happly
    exact .bind_of_run hrun hcalls (hok q record w' happly hsound hview' htouches)
  | error e =>
    have hrun := append_run_error env hw hview happly
    rw [Program.Obeys, Program.calls_bind, Program.run_bind, hrun, List.append_nil]
    exact ⟨hcalls, herror e happly⟩

end Obeys

/-! ## Deciding -/

/-- The permission table that a link carries. -/
def linkCeiling : Option AgentLinkRecord → Except StoreError (Option AgentPermissions)
  | none => .ok none
  | some link => match AgentPermissions.ofJson? link.permissionCeiling with
    | some permissions => .ok (some permissions)
    | none => .error .json

/-- The permission table the parent left for a session, as the database has it. -/
def Database.ceilingOf (db : Database) (sessionId : String) :
    Except StoreError (Option AgentPermissions) :=
  match db.agentLinksOf sessionId with
  | .error e => .error e
  | .ok links => linkCeiling (childLink sessionId links)

theorem parentCeiling_run (w : World) :
    (parentCeiling sessionId).run (World.handle env) w =
      (w.store.db.ceilingOf sessionId, w.tick) := by
  have hlinks : (onStore (.agentLinks sessionId)).run (World.handle env) w =
      (w.store.db.agentLinksOf sessionId, w.tick) := by
    rw [onStore, Program.run_call, Program.run_ofExcept]
    rfl
  rw [parentCeiling, Program.run_bind, hlinks, Database.ceilingOf]
  cases w.store.db.agentLinksOf sessionId with
  | error e => rfl
  | ok links =>
    dsimp only
    cases childLink sessionId links with
    | none => rfl
    | some link =>
      dsimp only [linkCeiling]
      cases AgentPermissions.ofJson? link.permissionCeiling <;> rfl

/-- What the calls of a run are decided by, as configuration and database have it. -/
theorem permissionContext_run {config : PiqoConfig}
    (hconfig : ∀ n, env.answer n .configSnapshot = .ok config) {session : SessionSummary}
    (hsession : w.store.db.getSession sessionId = .ok session)
    {ceiling : Option AgentPermissions} (hceiling : w.store.db.ceilingOf sessionId = .ok ceiling)
    (request : RunRequest) :
    ∃ w', (permissionContext sessionId request).run (World.handle env) w =
      (.ok { sessionId, projectId := session.projectId, agentId := request.agentId
             configured := (config.agent request.agentId).toOption, parentCeiling := ceiling }, w') ∧
      w.Reads w' := by
  have hparent : (parentCeiling sessionId).run (World.handle env) w.tick =
      (.ok ceiling, w.tick.tick) := by
    rw [parentCeiling_run, ← hceiling]
    rfl
  have hsession' : w.tick.tick.store.db.getSession sessionId = .ok session := hsession
  have hreads := ((World.reads_tick w).trans (World.reads_tick _)).trans (World.reads_tick _)
  refine ⟨w.tick.tick.tick, ?_, hreads⟩
  rw [permissionContext, Program.run_bind_ok _ (configuredAgent_run env hconfig _ w),
    Program.run_bind_ok _ hparent, Program.run_bind_ok _ (getSession_run env hsession')]
  rfl

section ZipWith

variable {α β γ : Type} {f : α → β → γ}

theorem map_zipWith_left {g : γ → α} (hg : ∀ a b, g (f a b) = a) {as : List α} {bs : List β}
    (hlength : as.length = bs.length) : (List.zipWith f as bs).map g = as := by
  induction as generalizing bs with
  | nil => rfl
  | cons a as ih =>
    cases bs with
    | nil => cases hlength
    | cons b bs => rw [List.zipWith_cons_cons, List.map_cons, hg, ih (Nat.succ.inj hlength)]

theorem forall_mem_zipWith_iff {P : γ → Prop} {R : α → Prop} (hP : ∀ a b, P (f a b) ↔ R a)
    {as : List α} {bs : List β} (hlength : as.length = bs.length) :
    (∀ c ∈ List.zipWith f as bs, P c) ↔ ∀ a ∈ as, R a := by
  induction as generalizing bs with
  | nil => simp
  | cons a as ih =>
    cases bs with
    | nil => cases hlength
    | cons b bs =>
      rw [List.zipWith_cons_cons, List.forall_mem_cons, List.forall_mem_cons, hP,
        ih (Nat.succ.inj hlength)]

end ZipWith

/-- The decision about a call, under the id of its request. -/
def PermissionContext.evaluation (c : PermissionContext) (db : Database)
    (call : ToolCallProjection) (requestId : String) : CallEvaluation :=
  let own := c.configured.bind fun agent => permissionSetting agent.permissions call.toolName
  let parent := c.parentCeiling.bind (permissionSetting · call.toolName)
  let rule := if parentAllowsInteractive parent then
    db.matchingPermissionRule c.sessionId c.projectId c.agentId (ruleToolName call.toolName)
    else none
  let (decision, source, ruleId) := toolDecision (combinedSetting own parent) rule
  { requestId, call, decision, source, ruleId }

theorem evaluateCall_run (c : PermissionContext) (call : ToolCallProjection) (w : World) :
    ∃ w', (evaluateCall c call).run (World.handle env) w =
        (.ok (c.evaluation w.store.db call (env.answer w.clock .newUuid)), w') ∧
      w.Reads w' ∧ w.clock < w'.clock := by
  rw [evaluateCall, Program.run_bind_ok _ (ask_run env .newUuid w), PermissionContext.evaluation]
  dsimp only
  split
  · refine ⟨w.tick.tick, rfl, (World.reads_tick w).trans (World.reads_tick _), ?_⟩
    simp only [World.tick]
    omega
  · exact ⟨w.tick, rfl, World.reads_tick w, Nat.lt_succ_self _⟩

/-- The decisions about a list of calls; their request ids are drawn at increasing times. -/
theorem evaluateCalls_run (c : PermissionContext) (calls : List ToolCallProjection) (w : World) :
    ∃ times w', (evaluateCalls c calls).run (World.handle env) w =
        (.ok (List.zipWith (fun call n => c.evaluation w.store.db call (env.answer n .newUuid))
          calls times), w') ∧
      w.Reads w' ∧ times.length = calls.length ∧ times.Pairwise (· < ·) ∧
      ∀ n ∈ times, w.clock ≤ n := by
  induction calls generalizing w with
  | nil => exact ⟨[], w, rfl, World.Reads.refl w, rfl, .nil, by simp⟩
  | cons call calls ih =>
    obtain ⟨w₁, hcall, hreads₁, hclock⟩ := evaluateCall_run env c call w
    obtain ⟨times, w₂, hcalls, hreads₂, hlength, hordered, hlater⟩ := ih w₁
    refine ⟨w.clock :: times, w₂, ?_, hreads₁.trans hreads₂, by simp [hlength], ?_, ?_⟩
    · rw [evaluateCalls, Program.run_bind_ok _ hcall, Program.run_bind_ok _ hcalls, hreads₁.db]
      rfl
    · exact List.pairwise_cons.mpr ⟨fun n hn => lt_of_lt_of_le hclock (hlater n hn), hordered⟩
    · intro n hn
      rcases List.mem_cons.mp hn with rfl | hn
      · exact le_refl _
      · exact le_trans hclock.le (hlater n hn)

/-- The decisions about the unanswered calls of a run. -/
theorem decideCalls_run {config : PiqoConfig}
    (hconfig : ∀ n, env.answer n .configSnapshot = .ok config) (hw : w.Sound)
    (hview : w.view sessionId = some p) {session : SessionSummary}
    (hsession : w.store.db.getSession sessionId = .ok session) {run run' : RunProjection}
    (hrun : p.runs.get? run.runId = some run') {request : RunRequest}
    (hrequest : RunRequest.ofJson? run.request = some request)
    {ceiling : Option AgentPermissions} (hceiling : w.store.db.ceilingOf sessionId = .ok ceiling) :
    let c : PermissionContext := {
      sessionId, projectId := session.projectId, agentId := request.agentId
      configured := (config.agent request.agentId).toOption, parentCeiling := ceiling }
    let calls := run'.toolCalls.values.filter (·.result.isNone)
    ∃ times w', (decideCalls sessionId run).run (World.handle env) w =
        (.ok (c, run', List.zipWith (fun call n =>
          c.evaluation w.store.db call (env.answer n .newUuid)) calls times), w') ∧
      w.Reads w' ∧ times.length = calls.length ∧ times.Pairwise (· < ·) := by
  intro c calls
  obtain ⟨w₁, hcontext, hreads₁⟩ := permissionContext_run env hconfig hsession hceiling request
  obtain ⟨w₂, hload, hreads₂⟩ := loadRun_run env (hreads₁.sound hw)
    ((hreads₁.view sessionId).trans hview) hrun
  obtain ⟨times, w₃, hevaluations, hreads₃, hlength, hordered, -⟩ := evaluateCalls_run env c calls w₂
  refine ⟨times, w₃, ?_, (hreads₁.trans hreads₂).trans hreads₃, hlength, hordered⟩
  rw [decideCalls, hrequest]
  change (permissionContext sessionId request >>= _).run _ _ = _
  rw [Program.run_bind_ok _ hcontext, Program.run_bind_ok _ hload]
  simp only
  rw [Program.run_bind_ok _ hevaluations, hreads₂.db, hreads₁.db]
  rfl

/-! ## A session to look at -/

/-- A configuration with a provider. -/
def oneProvider : PiqoConfig where
  providerContexts := (∅ : SortedMap String ProviderContextConfig).insert "p" {}

/-- A session, and what is appended to it before the server stops. -/
def stoppedStore (events : List SemanticEvent) : Store :=
  (Store.ofDatabase (.empty ∅)).executeAll
    [.createSessionWithRetention "s" "t0" none none .forever,
      .appendEvents "s" (fun _ => "t1") events]

/-- A server with this session. -/
def World.holding (events : List SemanticEvent) : World where
  store := stoppedStore events
  published := []
  workers := []
  clock := 0

theorem World.holding_sound (events : List SemanticEvent) : (World.holding events).Sound :=
  (Store.Sound.empty _).executeAll _

theorem World.holding_nil_view {id : String} {p : SessionProjection}
    (h : (World.holding []).view id = some p) :
    id = "s" ∧ (SessionProjection.new "s").applyAll [.sessionCreated none] = .ok p := by
  by_cases hid : id = "s"
  · subst hid
    exact ⟨rfl, congrArg Except.ok (Option.some.inj h)⟩
  · change ((SortedMap.insert ∅ "s" _ : SortedMap String StoredSession).get? id).bind _ = _ at h
    rw [SortedMap.get?_insert_of_ne _ _ hid] at h
    cases h

/-- What is shown of the sessions of this server. -/
theorem World.holding_view {events : List SemanticEvent} {id : String} {p : SessionProjection}
    (h : (World.holding events).view id = some p) :
    id = "s" ∧ ∃ accepted ⊆ events,
      (SessionProjection.new "s").applyAll (.sessionCreated none :: accepted) = .ok p := by
  have happend := World.handle_append_view (.plain {}) (World.holding_sound []) "s" events
  change (∀ id, (World.holding events).view id = _) ∨ ∃ p q, _ ∧ _ ∧
    (World.holding events).view "s" = some q ∧
    ∀ id ≠ "s", (World.holding events).view id = _ at happend
  rcases happend with hsame | ⟨p₀, q, hp₀, happly, hview, hothers⟩
  · rw [hsame id] at h
    obtain ⟨hid, hp⟩ := World.holding_nil_view h
    exact ⟨hid, [], by simp, hp⟩
  · obtain ⟨-, hp₀⟩ := World.holding_nil_view hp₀
    by_cases hid : id = "s"
    · subst hid
      cases hview.symm.trans h
      exact ⟨rfl, events, fun _ he => he, SessionProjection.applyAll_append.mpr ⟨p₀, hp₀, happly⟩⟩
    · rw [hothers id hid] at h
      exact absurd (World.holding_nil_view h).1 hid

end Piqo
