import PiqoServer.Server.Runs

/-!
# Startup

When the server starts, `recover_running_sessions` (`piqo-server/src/storage.rs`) interrupts the
sessions that were running, and `resume_ready_actions_after_restart`
(`piqo-server/src/supervisor.rs`) interrupts the runs whose native call was cut short and starts
workers for the runs that have all their results.

## Main definitions

* `startup`: both procedures, one after the other
* `Interrupts`: some runs of a session are interrupted, nothing else changes
* `Restarted`: what startup does with one session

## Main results

* `recoverSession_run`, `resumeSession_run`: what the procedures do with one session
* `startup_run`: startup runs to its end, and does to each session what `Restarted` says
-/

namespace Piqo

/-! ## The procedure -/

/-- A program of the store as one of the server. -/
def onServer {α : Type} : Program storeSignature StoreError α → ServerProgram α
  | .ret a => .ret a
  | .fail e => .fail e
  | .call op k => .call (.store op) fun r => onServer (k r)

/-- A native call was claimed and has no result. -/
def RunProjection.nativeCutShort (run : RunProjection) : Bool :=
  run.status = .requiresAction &&
    run.toolCalls.values.any fun call =>
      call.native && call.executionId.isSome && call.result.isNone

/-- One session of `resume_ready_actions_after_restart`. -/
def resumeSession (sessionId : String) : ServerProgram Unit := do
  let projection ← onStore (.projection sessionId)
  let interrupted := (projection.runs.values.filter (·.nativeCutShort)).map (·.runId)
  if !interrupted.isEmpty then
    let _ ← appendMany sessionId (interrupted.map fun runId =>
      .runInterrupted runId "native_execution_interrupted_by_restart")
    return ()
  if projection.readyActionRun.isSome then spawnWorker sessionId

def resumeSessions : List String → ServerProgram Unit
  | [] => return ()
  | sessionId :: sessionIds => do
    resumeSession sessionId
    resumeSessions sessionIds

def resumeReadyActionsAfterRestart : ServerProgram Unit := do
  resumeSessions (← onStore .sessionIds)

/-- What `prepare_server` does with the store it has opened. -/
def startup : ServerProgram Unit := do
  let _ ← onServer recoverRunningSessions
  resumeReadyActionsAfterRestart

/-- The server as it opens a database. -/
def World.boot (db : Database) : World :=
  { store := .ofDatabase db, published := [], workers := [], clock := 0 }

section OnServer

variable {α β : Type}

theorem onServer_bind (p : Program storeSignature StoreError α)
    (f : α → Program storeSignature StoreError β) :
    onServer (p >>= f) = onServer p >>= fun a => onServer (f a) := by
  induction p with
  | ret a => rfl
  | fail e => rfl
  | call op k ih =>
    have hk : (fun r => onServer (k r >>= f)) = fun r => onServer (k r) >>= fun a => onServer (f a) :=
      funext ih
    exact congrArg (Program.call (S := serverSignature) (.store op)) hk

theorem onServer_run (op : StoreOp) : onServer op.run = onStore op := by
  have hk : (fun r => onServer (.ofExcept r)) =
      (Program.ofExcept : Except StoreError op.Result → ServerProgram op.Result) := by
    funext r
    cases r <;> rfl
  exact congrArg (Program.call (S := serverSignature) (.store op)) hk

end OnServer

/-! ## Interrupting runs -/

/-- The runs that `S` holds of are interrupted, and then the queue is paused; everything else about
runs and permissions stays. -/
structure Interrupts (S : RunProjection → Prop) (p q : SessionProjection) : Prop where
  permissions : q.pendingPermissions = p.pendingPermissions
  paused : q.queuePaused = true ↔
    p.queuePaused = true ∨ ∃ runId run, p.runs.get? runId = some run ∧ S run
  absent : ∀ {runId}, p.runs.get? runId = none → q.runs.get? runId = none
  hit : ∀ {runId run}, p.runs.get? runId = some run → S run →
    ∃ error, q.runs.get? runId = some { run with status := .interrupted, error }
  kept : ∀ {runId run}, p.runs.get? runId = some run → ¬ S run → q.runs.get? runId = some run

namespace SessionProjection

variable {p q : SessionProjection} {runId reason : String} {run : RunProjection}

theorem apply_runInterrupted (hrun : p.runs.get? runId = some run) (hlive : run.status.live = true)
    (reason : String) (eventId : Nat) :
    ∃ q, p.apply eventId (.runInterrupted runId reason) = .ok q ∧
      q.runs = p.runs.insert runId { run with status := .interrupted, error := some reason } ∧
      q.pendingPermissions = p.pendingPermissions ∧ q.queuePaused = true := by
  let run' := { run with status := .interrupted, error := some reason }
  refine ⟨{ p with
    state := { p.state with lastEventId := some eventId }
    runs := p.runs.insert runId run', queuePaused := true }, ?_, rfl, rfl, rfl⟩
  refine apply_eq_ok.mpr ⟨_, rfl, ?_⟩
  refine Except.map_eq_ok.mpr ⟨_, setRunTerminal_eq_ok.mpr ⟨run, hrun, hlive, rfl⟩, rfl⟩

theorem apply_sessionInterrupted (hphase : p.state.phase = .running) (reason : String)
    (eventId : Nat) :
    ∃ q, p.apply eventId (.sessionInterrupted reason) = .ok q ∧ q.runs = p.runs ∧
      q.pendingPermissions = p.pendingPermissions ∧ q.queuePaused = p.queuePaused ∧
      q.state.phase = .interrupted := by
  let state : SessionState :=
    { p.state with phase := .interrupted, revision := p.state.revision + 1, lastEventId := some eventId }
  refine ⟨{ p with state }, apply_eq_ok.mpr ⟨state, ?_, rfl⟩, rfl, rfl, rfl, rfl⟩
  rw [SessionState.apply, SessionState.applyPhase, SessionState.interrupt, SessionState.transition,
    if_pos (by simp [hphase])]
  rfl

/-- Interrupting several live runs in turn. -/
theorem applyAll_runInterrupted (reason : String) {runIds : List String} (hnodup : runIds.Nodup)
    (hkeyed : p.WellKeyed)
    (hlive : ∀ runId ∈ runIds, ∃ run, p.runs.get? runId = some run ∧ run.status.live = true) :
    ∃ q, p.applyAll (runIds.map fun runId => .runInterrupted runId reason) = .ok q ∧
      Interrupts (fun run => run.runId ∈ runIds) p q := by
  induction runIds generalizing p with
  | nil =>
    refine ⟨p, rfl, rfl, ?_, id, ?_, fun h _ => h⟩
    · simp
    · rintro runId run - hmem
      cases hmem
  | cons first rest ih =>
    obtain ⟨hfirst, hrest⟩ := List.nodup_cons.mp hnodup
    obtain ⟨run, hrun, hlive₁⟩ := hlive first List.mem_cons_self
    obtain ⟨p₁, happly, hruns, hpermissions, hpaused⟩ :=
      apply_runInterrupted hrun hlive₁ reason (p.state.lastEventId.getD 0 + 1)
    -- the other runs are as they were
    have hother : ∀ {runId}, runId ≠ first → p₁.runs.get? runId = p.runs.get? runId := by
      intro runId hne
      rw [hruns, SortedMap.get?_insert_of_ne _ _ hne]
    obtain ⟨q, hq, hinterrupts⟩ := ih hrest (hkeyed.apply happly) <| by
      intro runId hmem
      have hne : runId ≠ first := by
        rintro rfl
        exact hfirst hmem
      rw [hother hne]
      exact hlive runId (List.mem_cons_of_mem _ hmem)
    refine ⟨q, ?_, hinterrupts.permissions.trans hpermissions, ?_, ?_, ?_, ?_⟩
    · rw [List.map_cons, applyAll_cons happly, hq]
    · refine iff_of_true (hinterrupts.paused.mpr (.inl hpaused)) (.inr ⟨first, run, hrun, ?_⟩)
      rw [hkeyed.run hrun]
      exact List.mem_cons_self
    · intro runId hnone
      have hne : runId ≠ first := by
        rintro rfl
        rw [hrun] at hnone
        cases hnone
      exact hinterrupts.absent ((hother hne).trans hnone)
    · intro runId run' hrun' hmem
      rw [hkeyed.run hrun'] at hmem
      by_cases hne : runId = first
      · subst hne
        cases hrun.symm.trans hrun'
        refine ⟨some reason, hinterrupts.kept ?_ ?_⟩
        · rw [hruns, SortedMap.get?_insert_self]
        · exact fun hmem' => hfirst (hkeyed.run hrun ▸ hmem')
      · refine hinterrupts.hit ((hother hne).trans hrun') ?_
        rw [hkeyed.run hrun']
        exact (List.mem_cons.mp hmem).resolve_left hne
    · intro runId run' hrun' hmem
      rw [hkeyed.run hrun', List.mem_cons, not_or] at hmem
      refine hinterrupts.kept ((hother hmem.1).trans hrun') ?_
      rw [hkeyed.run hrun']
      exact hmem.2

theorem mem_values_runs (hkeyed : p.WellKeyed) :
    run ∈ p.runs.values ↔ p.runs.get? run.runId = some run := by
  rw [SortedMap.mem_values_iff]
  constructor
  · rintro ⟨runId, hrun⟩
    rw [hkeyed.run hrun]
    exact hrun
  · exact fun h => ⟨_, h⟩

theorem activeRun_some (hkeyed : p.WellKeyed) (h : p.activeRun = some run) :
    p.runs.get? run.runId = some run ∧ run.status = .running := by
  refine ⟨(mem_values_runs hkeyed).mp (List.mem_of_find?_eq_some h), ?_⟩
  simpa using List.find?_some h

end SessionProjection

theorem Interrupts.congr {S T : RunProjection → Prop} {p q : SessionProjection}
    (h : Interrupts S p q)
    (hST : ∀ {runId run}, p.runs.get? runId = some run → (S run ↔ T run)) : Interrupts T p q where
  permissions := h.permissions
  paused := by
    rw [h.paused]
    refine or_congr Iff.rfl (exists_congr fun runId => exists_congr fun run => ?_)
    exact and_congr_right hST
  absent := h.absent
  hit hrun hT := h.hit hrun ((hST hrun).mpr hT)
  kept hrun hT := h.kept hrun fun hS => hT ((hST hrun).mp hS)

theorem Interrupts.none (S : RunProjection → Prop) {p q : SessionProjection} (hruns : q.runs = p.runs)
    (hpermissions : q.pendingPermissions = p.pendingPermissions)
    (hpaused : q.queuePaused = p.queuePaused)
    (hS : ∀ {runId run}, p.runs.get? runId = some run → ¬ S run) : Interrupts S p q where
  permissions := hpermissions
  paused := by
    rw [hpaused]
    refine (or_iff_left ?_).symm
    rintro ⟨runId, run, hrun, hrunS⟩
    exact hS hrun hrunS
  absent h := hruns ▸ h
  hit hrun hrunS := absurd hrunS (hS hrun)
  kept h _ := hruns ▸ h

/-! ## One session -/

section Session

variable (env : Surroundings) {w : World} {sessionId : String} {p q : SessionProjection}

theorem appendEvent_run (hw : w.Sound) (hview : w.view sessionId = some p) {event : SemanticEvent}
    (happly : p.applyAll [event] = .ok q) :
    ∃ record w', (onServer (appendEvent sessionId event)).run (World.handle env) w =
        (.ok record, w') ∧
      w'.Sound ∧ w'.view sessionId = some q ∧ w.Touches sessionId w' := by
  obtain ⟨records, w', hstored, hsound, hview', htouches, hlength⟩ :=
    storeAppend_run env hw hview happly
  obtain ⟨record, rfl⟩ := List.length_eq_one_iff.mp hlength
  refine ⟨record, w', ?_, hsound, hview', htouches⟩
  rw [appendEvent, onServer_bind, onServer_run, Program.run_bind_ok _ hstored]
  rfl

/-- Recovery interrupts the session and its active run. -/
theorem recoverSession_run (hw : w.Sound) (hview : w.view sessionId = some p)
    (hphase : p.state.phase = .running) :
    ∃ record w' q, (onServer (recoverSession sessionId)).run (World.handle env) w =
        (.ok record, w') ∧
      w'.Sound ∧ w.Touches sessionId w' ∧ w'.view sessionId = some q ∧
      Interrupts (fun run => p.activeRun = some run) p q := by
  obtain ⟨p₁, happly, hruns, hpermissions, hpaused, -⟩ := SessionProjection.apply_sessionInterrupted hphase
    "server_restart" (p.state.lastEventId.getD 0 + 1)
  obtain ⟨record, w₁, hfirst, hw₁, hview₁, htouches₁⟩ := appendEvent_run env hw hview
    (SessionProjection.applyAll_cons happly)
  obtain ⟨w₂, hprojection, hreads⟩ := projection_run env hw₁ hview₁
  have htouches₂ := htouches₁.trans (hreads.touches sessionId)
  have hactive : p₁.activeRun = p.activeRun := by rw [SessionProjection.activeRun, hruns]; rfl
  cases hrun : p.activeRun with
  | none =>
    refine ⟨record, w₂, p₁, ?_, hreads.sound hw₁, htouches₂, (hreads.view _).trans hview₁,
      .none _ hruns hpermissions hpaused fun _ h => by cases h⟩
    rw [recoverSession, onServer_bind, Program.run_bind_ok _ hfirst, onServer_bind, onServer_run,
      Program.run_bind_ok _ hprojection, hactive, hrun]
    rfl
  | some run =>
    have hkeyed := Store.Sound.wellKeyed_view hw₁ hview₁
    obtain ⟨hget, hrunning⟩ := SessionProjection.activeRun_some hkeyed (hactive.trans hrun)
    obtain ⟨q, hq, hinterrupts⟩ := SessionProjection.applyAll_runInterrupted "server_restart"
      (show [run.runId].Nodup from List.pairwise_singleton ..) hkeyed <| by
        intro runId hrunId
        rw [List.mem_singleton.mp hrunId]
        exact ⟨run, hget, by rw [hrunning]; rfl⟩
    obtain ⟨second, w₃, hsecond, hw₃, hview₃, htouches₃⟩ := appendEvent_run env (hreads.sound hw₁)
      ((hreads.view _).trans hview₁) hq
    refine ⟨record, w₃, q, ?_, hw₃, htouches₂.trans htouches₃, hview₃, ?_⟩
    · rw [recoverSession, onServer_bind, Program.run_bind_ok _ hfirst, onServer_bind, onServer_run,
        Program.run_bind_ok _ hprojection, hactive, hrun]
      dsimp only
      rw [onServer_bind, Program.run_bind_ok _ hsecond]
      rfl
    · have hinterrupts := hinterrupts.congr (T := fun other => some run = some other) <| by
        intro runId other hother
        rw [List.mem_singleton, Option.some.injEq]
        constructor
        · intro hid
          rw [← hid, hkeyed.run hother, hother] at hget
          exact (Option.some.inj hget).symm
        · rintro rfl
          rfl
      refine ⟨hinterrupts.permissions.trans hpermissions, ?_, fun h => hinterrupts.absent (hruns ▸ h),
        fun h => hinterrupts.hit (hruns ▸ h), fun h => hinterrupts.kept (hruns ▸ h)⟩
      rw [hinterrupts.paused, hpaused, hruns]

/-- The runs whose native call was cut short, as `resume_ready_actions_after_restart` finds them. -/
theorem mem_cutShort (hkeyed : p.WellKeyed) {runId : String} :
    runId ∈ (p.runs.values.filter (·.nativeCutShort)).map (·.runId) ↔
      ∃ run, p.runs.get? runId = some run ∧ run.nativeCutShort = true := by
  simp only [List.mem_map, List.mem_filter]
  constructor
  · rintro ⟨run, ⟨hmem, hcut⟩, rfl⟩
    exact ⟨run, (SessionProjection.mem_values_runs hkeyed).mp hmem, hcut⟩
  · rintro ⟨run, hrun, hcut⟩
    exact ⟨run, ⟨(SortedMap.mem_values_iff _).mpr ⟨runId, hrun⟩, hcut⟩, hkeyed.run hrun⟩

theorem nodup_cutShort (hkeyed : p.WellKeyed) :
    ((p.runs.values.filter (·.nativeCutShort)).map (·.runId)).Nodup := by
  have hkeys : p.runs.values.map (·.runId) = p.runs.keys := by
    rw [SortedMap.values, SortedMap.keys, List.map_map]
    refine List.map_congr_left fun e he => ?_
    exact hkeyed.run ((SortedMap.get?_eq_some_iff _).mpr he)
  have hsub := (List.filter_sublist (p := (·.nativeCutShort)) (l := p.runs.values)).map (·.runId)
  rw [hkeys] at hsub
  exact (SortedMap.nodup_keys _).sublist hsub

theorem cutShort_applyAll (hkeyed : p.WellKeyed) (reason : String) :
    ∃ q, p.applyAll (((p.runs.values.filter (·.nativeCutShort)).map (·.runId)).map
        fun runId => .runInterrupted runId reason) = .ok q ∧
      Interrupts (·.nativeCutShort = true) p q := by
  obtain ⟨q, hq, hinterrupts⟩ := SessionProjection.applyAll_runInterrupted reason
    (nodup_cutShort hkeyed) hkeyed <| by
      intro runId hrunId
      obtain ⟨run, hrun, hcut⟩ := (mem_cutShort hkeyed).mp hrunId
      refine ⟨run, hrun, ?_⟩
      simp only [RunProjection.nativeCutShort, Bool.and_eq_true, decide_eq_true_eq] at hcut
      rw [hcut.1]
      rfl
  refine ⟨q, hq, hinterrupts.congr fun {runId run} hrun => ?_⟩
  rw [hkeyed.run hrun, mem_cutShort hkeyed]
  constructor
  · rintro ⟨run', hrun', hcut⟩
    cases hrun.symm.trans hrun'
    exact hcut
  · exact fun hcut => ⟨run, hrun, hcut⟩

/-- What `resume_ready_actions_after_restart` does with one session. -/
theorem resumeSession_run (hrunning : ∀ n, env.answer n .isShutdown = false) (hw : w.Sound)
    (hview : w.view sessionId = some p) :
    ∃ w' q, (resumeSession sessionId).run (World.handle env) w = (.ok (), w') ∧
      w'.Sound ∧ w.store.Touches sessionId w'.store ∧ w'.view sessionId = some q ∧
      Interrupts (·.nativeCutShort = true) p q ∧
      w'.workers = w.workers ++
        if (∀ run ∈ p.runs.values, run.nativeCutShort = false) ∧ p.readyActionRun.isSome = true
        then [sessionId] else [] := by
  obtain ⟨w₁, hprojection, hreads⟩ := projection_run env hw hview
  have hkeyed := Store.Sound.wellKeyed_view hw hview
  set cutShort := (p.runs.values.filter (·.nativeCutShort)).map (·.runId) with hcutShort
  rw [resumeSession, Program.run_bind_ok _ hprojection]
  dsimp only
  rw [← hcutShort]
  by_cases hempty : cutShort = []
  · have hnone : ∀ run ∈ p.runs.values, run.nativeCutShort = false := by
      intro run hrun
      rw [hcutShort, List.map_eq_nil_iff, List.filter_eq_nil_iff] at hempty
      simpa using hempty run hrun
    have hkept : Interrupts (·.nativeCutShort = true) p p := by
      refine .none _ rfl rfl rfl fun hrun hcut => ?_
      rw [hnone _ ((SortedMap.mem_values_iff _).mpr ⟨_, hrun⟩)] at hcut
      cases hcut
    rw [hempty]
    cases hready : p.readyActionRun.isSome with
    | false =>
      refine ⟨w₁, p, rfl, hreads.sound hw, (hreads.touches sessionId).store,
        (hreads.view _).trans hview, hkept, ?_⟩
      rw [if_neg (by simp), List.append_nil, hreads.workers]
    | true =>
      refine ⟨{ w₁.tick with workers := w₁.workers ++ [sessionId], clock := w₁.clock + 2 }, p, ?_,
        hreads.sound hw, (hreads.touches sessionId).store, (hreads.view _).trans hview, hkept, ?_⟩
      · change (spawnWorker sessionId).run _ _ = _
        rw [spawnWorker, Program.run_bind_ok _ (ask_run env .isShutdown w₁), hrunning]
        rfl
      · rw [if_pos ⟨hnone, rfl⟩, hreads.workers]
  · obtain ⟨q, hq, hinterrupts⟩ :=
      cutShort_applyAll hkeyed "native_execution_interrupted_by_restart"
    obtain ⟨records, w₂, happend, hw₂, hview₂, htouches⟩ := appendMany_run env (hreads.sound hw)
      ((hreads.view _).trans hview) hq
    refine ⟨w₂, q, ?_, hw₂, ((hreads.touches sessionId).trans htouches).store, hview₂, hinterrupts, ?_⟩
    · rw [if_pos (by simp [hempty]), Program.run_bind_ok _ happend]
      rfl
    · rw [if_neg, List.append_nil, htouches.workers, hreads.workers]
      rintro ⟨hnone, -⟩
      refine hempty ?_
      rw [hcutShort, List.map_eq_nil_iff, List.filter_eq_nil_iff]
      intro run hrun
      simp [hnone run hrun]

end Session

/-! ## Every session in turn -/

/-- Each of the sessions changed as `R` says, the others not at all. -/
structure EachSession (R : SessionProjection → SessionProjection → Prop) (ids : List String)
    (w w' : World) : Prop where
  sound : w'.Sound
  keys : w'.store.db.sessions.keys = w.store.db.sessions.keys
  same : ∀ id ∉ ids, w'.view id = w.view id
  changed : ∀ id ∈ ids, ∀ p, w.view id = some p → ∃ q, w'.view id = some q ∧ R p q

section Loops

variable {R : SessionProjection → SessionProjection → Prop} {w w₁ w₂ : World} {id : String}
  {ids : List String} {p q : SessionProjection}

theorem EachSession.nil (hw : w.Sound) : EachSession R [] w w :=
  ⟨hw, rfl, fun _ _ => rfl, fun _ h => by cases h⟩

theorem EachSession.cons (hview : w.view id = some p) (htouches : w.store.Touches id w₁.store)
    (hview₁ : w₁.view id = some q) (hR : R p q) (hfresh : id ∉ ids) (h : EachSession R ids w₁ w₂) :
    EachSession R (id :: ids) w w₂ where
  sound := h.sound
  keys := h.keys.trans htouches.keys
  same := by
    intro other hother
    rw [List.mem_cons, not_or] at hother
    exact (h.same other hother.2).trans (htouches.views other hother.1)
  changed := by
    intro other hother p' hp'
    rcases List.mem_cons.mp hother with rfl | hother
    · cases hview.symm.trans hp'
      exact ⟨q, (h.same other hfresh).trans hview₁, hR⟩
    · have hne : other ≠ id := fun heq => hfresh (heq ▸ hother)
      exact h.changed other hother p' ((htouches.views other hne).trans hp')

variable (env : Surroundings)

theorem recoverSessions_run (hw : w.Sound) (hnodup : ids.Nodup)
    (hphase : ∀ id ∈ ids, ∃ p, w.view id = some p ∧ p.state.phase = .running) :
    ∃ records w', (onServer (recoverSessions ids)).run (World.handle env) w = (.ok records, w') ∧
      EachSession (fun p q => Interrupts (fun run => p.activeRun = some run) p q) ids w w' ∧
      w'.workers = w.workers := by
  induction ids generalizing w with
  | nil => exact ⟨[], w, rfl, .nil hw, rfl⟩
  | cons id ids ih =>
    obtain ⟨hfresh, hnodup⟩ := List.nodup_cons.mp hnodup
    obtain ⟨p, hview, hrunning⟩ := hphase id List.mem_cons_self
    obtain ⟨record, w₁, q, hfirst, hw₁, htouches, hview₁, hinterrupts⟩ :=
      recoverSession_run env hw hview hrunning
    obtain ⟨records, w₂, hrest, heach, hworkers⟩ := ih hw₁ hnodup <| by
      intro other hother
      obtain ⟨p', hview', hrunning'⟩ := hphase other (List.mem_cons_of_mem _ hother)
      have hne : other ≠ id := fun heq => hfresh (heq ▸ hother)
      exact ⟨p', (htouches.store.views other hne).trans hview', hrunning'⟩
    refine ⟨record :: records, w₂, ?_, .cons hview htouches.store hview₁ hinterrupts hfresh heach,
      hworkers.trans htouches.workers⟩
    rw [recoverSessions, onServer_bind, Program.run_bind_ok _ hfirst, onServer_bind,
      Program.run_bind_ok _ hrest]
    rfl

/-- A worker is started for the session. -/
def SessionProjection.Resumes (p : SessionProjection) : Prop :=
  (∀ run ∈ p.runs.values, run.nativeCutShort = false) ∧ p.readyActionRun.isSome = true

theorem resumeSessions_run (hrunning : ∀ n, env.answer n .isShutdown = false) (hw : w.Sound)
    (hnodup : ids.Nodup) (hviews : ∀ id ∈ ids, ∃ p, w.view id = some p) :
    ∃ w', (resumeSessions ids).run (World.handle env) w = (.ok (), w') ∧
      EachSession (Interrupts (·.nativeCutShort = true)) ids w w' ∧
      ∀ id, id ∈ w'.workers ↔
        id ∈ w.workers ∨ id ∈ ids ∧ ∃ p, w.view id = some p ∧ p.Resumes := by
  induction ids generalizing w with
  | nil => exact ⟨w, rfl, .nil hw, by simp⟩
  | cons id ids ih =>
    obtain ⟨hfresh, hnodup⟩ := List.nodup_cons.mp hnodup
    obtain ⟨p, hview⟩ := hviews id List.mem_cons_self
    obtain ⟨w₁, q, hfirst, hw₁, htouches, hview₁, hinterrupts, hworkers₁⟩ :=
      resumeSession_run env hrunning hw hview
    have hother : ∀ other ∈ ids, w₁.view other = w.view other := by
      intro other hother
      exact htouches.views other fun heq => hfresh (heq ▸ hother)
    obtain ⟨w₂, hrest, heach, hworkers₂⟩ := ih hw₁ hnodup <| by
      intro other hmem
      obtain ⟨p', hview'⟩ := hviews other (List.mem_cons_of_mem _ hmem)
      exact ⟨p', (hother other hmem).trans hview'⟩
    refine ⟨w₂, ?_, .cons hview htouches hview₁ hinterrupts hfresh heach, fun other => ?_⟩
    · rw [resumeSessions, Program.run_bind_ok _ hfirst, hrest]
    · have hfirstWorker : other ∈ w₁.workers ↔
          other ∈ w.workers ∨ other = id ∧ ∃ p, w.view other = some p ∧ p.Resumes := by
        rw [hworkers₁, List.mem_append]
        refine or_congr Iff.rfl ?_
        split
        · next hresumes =>
          rw [List.mem_singleton]
          exact ⟨fun heq => ⟨heq, p, heq ▸ hview, hresumes⟩, And.left⟩
        · next hresumes =>
          refine ⟨fun h => absurd h List.not_mem_nil, ?_⟩
          rintro ⟨rfl, p', hview', hresumes'⟩
          cases hview.symm.trans hview'
          exact absurd hresumes' hresumes
      rw [hworkers₂, hfirstWorker, List.mem_cons, or_assoc]
      refine or_congr Iff.rfl ?_
      constructor
      · rintro (⟨heq, hresumes⟩ | ⟨hmem, hresumes⟩)
        · exact ⟨.inl heq, hresumes⟩
        · exact ⟨.inr hmem, hother other hmem ▸ hresumes⟩
      · rintro ⟨heq | hmem, hresumes⟩
        · exact .inl ⟨heq, hresumes⟩
        · exact .inr ⟨hmem, (hother other hmem).symm ▸ hresumes⟩

end Loops

/-! ## The whole procedure -/

section Whole

variable {w : World} (env : Surroundings)

theorem mem_runningSessions (hw : w.Sound) {id : String} :
    id ∈ w.store.db.runningSessions ↔ ∃ p, w.view id = some p ∧ p.state.phase = .running := by
  have hrow : id ∈ w.store.db.runningSessions ↔
      ∃ s, w.store.db.sessions.get? id = some s ∧ s.summary.phase = .running := by
    simp only [Database.runningSessions, List.mem_map, List.mem_filter, decide_eq_true_eq]
    constructor
    · rintro ⟨e, ⟨he, hphase⟩, rfl⟩
      exact ⟨e.2, (SortedMap.get?_eq_some_iff _).mpr he, hphase⟩
    · rintro ⟨s, hs, hphase⟩
      exact ⟨(id, s), ⟨(SortedMap.get?_eq_some_iff _).mp hs, hphase⟩, rfl⟩
  rw [hrow]
  constructor
  · rintro ⟨s, hs, hphase⟩
    obtain ⟨p, hp⟩ := Store.Sound.exists_view hw hs
    obtain ⟨s', hs', hcoherent⟩ := Store.Sound.coherent_view hw hp
    cases hs.symm.trans hs'
    exact ⟨p, hp, hcoherent.phase.symm.trans hphase⟩
  · rintro ⟨p, hp, hphase⟩
    obtain ⟨s, hs, hcoherent⟩ := Store.Sound.coherent_view hw hp
    exact ⟨s, hs, hcoherent.phase.trans hphase⟩

theorem mem_keys_of_view (hw : w.Sound) {id : String} :
    id ∈ w.store.db.sessions.keys ↔ ∃ p, w.view id = some p := by
  rw [SortedMap.mem_keys_iff]
  constructor
  · rintro ⟨s, hs⟩
    exact Store.Sound.exists_view hw hs
  · rintro ⟨p, hp⟩
    obtain ⟨s, hs, -⟩ := Store.Sound.coherent_view hw hp
    exact ⟨s, hs⟩

/-- What startup does with one session: its active run, then the runs cut short, are interrupted,
and a worker is started or not. -/
def Restarted (p q : SessionProjection) (started : Prop) : Prop :=
  ∃ p₁, Interrupts (fun run => p.state.phase = .running ∧ p.activeRun = some run) p p₁ ∧
    Interrupts (·.nativeCutShort = true) p₁ q ∧ (started ↔ p₁.Resumes)

theorem recoverRunningSessions_run (hw : w.Sound) :
    ∃ records w', (onServer recoverRunningSessions).run (World.handle env) w = (.ok records, w') ∧
      EachSession (fun p q => Interrupts (fun run => p.activeRun = some run) p q)
        w.store.db.runningSessions w w' ∧
      w'.workers = w.workers := by
  have hnodup : w.store.db.runningSessions.Nodup :=
    (SortedMap.nodup_keys _).sublist (List.filter_sublist.map _)
  obtain ⟨records, w', hrun, heach, hworkers⟩ :=
    recoverSessions_run (w := w.tick) env hw hnodup fun id hid => (mem_runningSessions hw).mp hid
  refine ⟨records, w', ?_, ⟨heach.sound, heach.keys, heach.same, heach.changed⟩, hworkers⟩
  rw [recoverRunningSessions, onServer_bind, onServer_run]
  exact hrun

/-- Startup runs to its end, and does to each session what `Restarted` says. -/
theorem startup_run (hrunning : ∀ n, env.answer n .isShutdown = false) (hw : w.Sound)
    (hworkers : w.workers = []) :
    ∃ w', startup.run (World.handle env) w = (.ok (), w') ∧ w'.Sound ∧
      (∀ id, w.view id = none → w'.view id = none) ∧
      ∀ id p, w.view id = some p → ∃ q, w'.view id = some q ∧ Restarted p q (id ∈ w'.workers) := by
  obtain ⟨records, w₁, hrecover, hrecovered, hworkers₁⟩ := recoverRunningSessions_run env hw
  have hviews : ∀ id ∈ w₁.store.db.sessions.keys, ∃ p, w₁.tick.view id = some p :=
    fun id hid => (mem_keys_of_view hrecovered.sound).mp hid
  obtain ⟨w₂, hresume, hresumed, hworkers₂⟩ := resumeSessions_run (w := w₁.tick) env hrunning
    hrecovered.sound (SortedMap.nodup_keys _) hviews
  refine ⟨w₂, ?_, hresumed.sound, fun id hnone => ?_, fun id p hview => ?_⟩
  · rw [startup, Program.run_bind_ok _ hrecover]
    exact hresume
  · have hkey : id ∉ w.store.db.sessions.keys := by
      rw [mem_keys_of_view hw, hnone]
      simp
    have hrow : id ∉ w.store.db.runningSessions := by
      rw [mem_runningSessions hw, hnone]
      simp
    exact ((hresumed.same id (hrecovered.keys ▸ hkey)).trans (hrecovered.same id hrow)).trans hnone
  · have hkey : id ∈ w₁.store.db.sessions.keys := by
      rw [hrecovered.keys, mem_keys_of_view hw]
      exact ⟨p, hview⟩
    obtain ⟨p₁, hview₁, hinterrupts⟩ : ∃ p₁, w₁.view id = some p₁ ∧
        Interrupts (fun run => p.state.phase = .running ∧ p.activeRun = some run) p p₁ := by
      by_cases hmem : id ∈ w.store.db.runningSessions
      · obtain ⟨p', hp', hphase⟩ := (mem_runningSessions hw).mp hmem
        cases hview.symm.trans hp'
        obtain ⟨p₁, hview₁, hinterrupts⟩ := hrecovered.changed id hmem p hview
        exact ⟨p₁, hview₁, hinterrupts.congr fun _ => (and_iff_right hphase).symm⟩
      · refine ⟨p, (hrecovered.same id hmem).trans hview, .none _ rfl rfl rfl fun _ hS => hmem ?_⟩
        exact (mem_runningSessions hw).mpr ⟨p, hview, hS.1⟩
    obtain ⟨q, hview₂, hcut⟩ := hresumed.changed id hkey p₁ hview₁
    refine ⟨q, hview₂, p₁, hinterrupts, hcut, ?_⟩
    have hnone : id ∉ w₁.tick.workers := by
      rw [World.tick, hworkers₁, hworkers]
      exact List.not_mem_nil
    rw [hworkers₂, or_iff_right hnone]
    constructor
    · rintro ⟨-, p', hp', hresumes⟩
      cases hview₁.symm.trans hp'
      exact hresumes
    · exact fun hresumes => ⟨hkey, p₁, hview₁, hresumes⟩

end Whole

end Piqo
