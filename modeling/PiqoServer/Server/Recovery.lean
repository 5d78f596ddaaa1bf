import PiqoServer.Server.Startup

/-!
# What startup recovers

A run that is left neither ended, nor with a worker, nor waiting for a client is wedged; a queued
run is stranded where the queue is not paused and no worker is there.

Startup interrupts at most one run per session, and only in sessions in phase running; it skips
the workers of a session in which it interrupts a native call; between the two appends of a session
it leaves a running run in a session that is no longer running; and it pays no attention to queued
runs.

## Main definitions

* `World.Unwedged`: no run is wedged
* `SessionProjection.Recoverable`: where startup leaves no run of a session wedged
* `World.Unstranded`, `SessionProjection.QueueRecovers`: the same for queued runs

## Main results

* `startup_unwedged_iff`: startup leaves no run wedged exactly in recoverable databases, and can be
  cut after any append exactly where no run is running besides
* `startup_wedged`: a crash between two appends of the recovery
* `startup_unstranded_iff`: which queued runs a start finds again
* `startup_stranded`: a crash right after a run was queued
-/

namespace Piqo

/-! ## Wedged runs -/

/-- A client can still act on the call: its request is undecided, or the client may fulfil it. -/
def SessionProjection.actionable (p : SessionProjection) (runId : String)
    (call : ToolCallProjection) : Bool :=
  call.result.isNone && p.pendingPermissions.values.any fun request =>
    request.runId = runId && request.callId = some call.callId &&
      (request.decision.isNone || (!call.native && request.decision = some .allow))

/-- A run that has not ended is not lost. -/
structure RunProjection.Unwedged (run : RunProjection) (p : SessionProjection) (started : Prop) :
    Prop where
  stopped : run.status ≠ .running
  waiting : run.status = .requiresAction →
    (run.toolCalls.values.all (·.result.isSome) = true ∧ started) ∨
      ∃ call ∈ run.toolCalls.values, p.actionable run.runId call = true

/-- No run is wedged. -/
def World.Unwedged (w : World) : Prop :=
  ∀ id p, w.view id = some p → ∀ run ∈ p.runs.values, run.Unwedged p (id ∈ w.workers)

/-- Where startup leaves no run of a session wedged: a running run is the active run of a session
in phase running; a run that requires action has its native call cut short, or has a call a client
can act on, or has all its results in a session that a worker is started for. -/
structure SessionProjection.Recoverable (p : SessionProjection) : Prop where
  active : ∀ run ∈ p.runs.values, run.status = .running →
    p.state.phase = .running ∧ p.activeRun = some run
  waiting : ∀ run ∈ p.runs.values, run.status = .requiresAction → run.nativeCutShort = false →
    (run.toolCalls.values.all (·.result.isSome) = true ∧ p.Resumes) ∨
      ∃ call ∈ run.toolCalls.values, p.actionable run.runId call = true

/-! ## Without a cut -/

section Uncut

variable {S : RunProjection → Prop} {p q r : SessionProjection} {run : RunProjection}

theorem Interrupts.mem_iff (h : Interrupts S p q) (hstatus : run.status ≠ .interrupted) :
    run ∈ q.runs.values ↔ run ∈ p.runs.values ∧ ¬ S run := by
  rw [SortedMap.mem_values_iff, SortedMap.mem_values_iff]
  constructor
  · rintro ⟨runId, hrun⟩
    cases hbefore : p.runs.get? runId with
    | none =>
      rw [h.absent hbefore] at hrun
      cases hrun
    | some before =>
      by_cases hS : S before
      · obtain ⟨error, hafter⟩ := h.hit hbefore hS
        rw [hafter] at hrun
        cases hrun
        exact absurd rfl hstatus
      · rw [h.kept hbefore hS] at hrun
        cases hrun
        exact ⟨⟨runId, hbefore⟩, hS⟩
  · rintro ⟨⟨runId, hrun⟩, hS⟩
    exact ⟨runId, h.kept hrun hS⟩

theorem RunProjection.status_of_nativeCutShort (h : run.nativeCutShort = true) :
    run.status = .requiresAction := by
  simp only [nativeCutShort, Bool.and_eq_true, decide_eq_true_eq] at h
  exact h.1

theorem SessionProjection.resumes_iff : p.Resumes ↔
    (∀ run ∈ p.runs.values, run.status = .requiresAction → run.nativeCutShort = false) ∧
      ∃ run ∈ p.runs.values, run.status = .requiresAction ∧ run.toolCalls.values ≠ [] ∧
        run.toolCalls.values.all (·.result.isSome) = true := by
  refine and_congr ⟨fun h run hrun _ => h run hrun, fun h run hrun => ?_⟩ ?_
  · cases hcut : run.nativeCutShort with
    | false => rfl
    | true =>
      have := h run hrun (RunProjection.status_of_nativeCutShort hcut)
      rw [hcut] at this
      exact this
  · rw [SessionProjection.readyActionRun, List.find?_isSome]
    simp only [Bool.and_eq_true, decide_eq_true_eq, Bool.not_eq_true', List.isEmpty_eq_false_iff,
      and_assoc]

/-- Interrupting runs that do not require action changes nothing for the workers. -/
theorem Interrupts.resumes_iff (h : Interrupts S p q)
    (hS : ∀ run, run.status = .requiresAction → ¬ S run) : q.Resumes ↔ p.Resumes := by
  have hmem : ∀ {run : RunProjection}, run.status = .requiresAction →
      (run ∈ q.runs.values ↔ run ∈ p.runs.values) := by
    intro run hstatus
    rw [h.mem_iff (by rw [hstatus]; decide)]
    exact and_iff_left (hS run hstatus)
  rw [SessionProjection.resumes_iff, SessionProjection.resumes_iff]
  refine and_congr (forall_congr' fun run => ?_) (exists_congr fun run => ?_)
  · constructor
    · exact fun hrun hin hstatus => hrun ((hmem hstatus).mpr hin) hstatus
    · exact fun hrun hin hstatus => hrun ((hmem hstatus).mp hin) hstatus
  · constructor
    · exact fun ⟨hin, hstatus, hrest⟩ => ⟨(hmem hstatus).mp hin, hstatus, hrest⟩
    · exact fun ⟨hin, hstatus, hrest⟩ => ⟨(hmem hstatus).mpr hin, hstatus, hrest⟩

theorem SessionProjection.actionable_congr (h : q.pendingPermissions = p.pendingPermissions)
    (runId : String) (call : ToolCallProjection) :
    q.actionable runId call = p.actionable runId call := by
  rw [actionable, actionable, h]

theorem SessionProjection.status_of_activeRun (h : p.activeRun = some run) :
    run.status = .running := by
  simpa using List.find?_some h

/-- After startup no run of a session is wedged exactly if the session was recoverable. -/
theorem Restarted.unwedged_iff {started : Prop} (h : Restarted p q started) :
    (∀ run ∈ q.runs.values, run.Unwedged q started) ↔ p.Recoverable := by
  obtain ⟨p₁, hactive, hcut, hstarted⟩ := h
  have hresumes : p₁.Resumes ↔ p.Resumes := by
    refine hactive.resumes_iff fun run hstatus hS => ?_
    rw [SessionProjection.status_of_activeRun hS.2] at hstatus
    cases hstatus
  have hrunning : ∀ {run : RunProjection}, run.status = .running → (run ∈ q.runs.values ↔
      run ∈ p.runs.values ∧ ¬ (p.state.phase = .running ∧ p.activeRun = some run)) := by
    intro run hstatus
    have hne : run.status ≠ .interrupted := by rw [hstatus]; decide
    rw [hcut.mem_iff hne, hactive.mem_iff hne]
    refine and_iff_left fun hrunCut => ?_
    rw [RunProjection.status_of_nativeCutShort hrunCut] at hstatus
    cases hstatus
  have hwaiting : ∀ {run : RunProjection}, run.status = .requiresAction → (run ∈ q.runs.values ↔
      run ∈ p.runs.values ∧ run.nativeCutShort = false) := by
    intro run hstatus
    have hne : run.status ≠ .interrupted := by rw [hstatus]; decide
    rw [hcut.mem_iff hne, hactive.mem_iff hne, Bool.not_eq_true]
    refine and_congr_left' (and_iff_left fun hS => ?_)
    rw [SessionProjection.status_of_activeRun hS.2] at hstatus
    cases hstatus
  have hactionable : ∀ (runId : String) call, q.actionable runId call = p.actionable runId call :=
    SessionProjection.actionable_congr (hcut.permissions.trans hactive.permissions)
  constructor
  · intro hunwedged
    refine ⟨fun run hrun hstatus => ?_, fun run hrun hstatus hnot => ?_⟩
    · by_contra hS
      exact (hunwedged run ((hrunning hstatus).mpr ⟨hrun, hS⟩)).stopped hstatus
    · have hwait := (hunwedged run ((hwaiting hstatus).mpr ⟨hrun, hnot⟩)).waiting hstatus
      simpa only [hstarted, hresumes, hactionable] using hwait
  · intro hrecoverable run hrun
    refine ⟨fun hstatus => ?_, fun hstatus => ?_⟩
    · obtain ⟨hmem, hS⟩ := (hrunning hstatus).mp hrun
      exact hS (hrecoverable.active run hmem hstatus)
    · obtain ⟨hmem, hnot⟩ := (hwaiting hstatus).mp hrun
      have hwait := hrecoverable.waiting run hmem hstatus hnot
      simpa only [hstarted, hresumes, hactionable] using hwait

end Uncut

theorem startup_run_unwedged_iff {w : World} (env : Surroundings)
    (hrunning : ∀ n, env.answer n .isShutdown = false) (hw : w.Sound) (hworkers : w.workers = []) :
    (startup.run (World.handle env) w).2.Unwedged ↔
      ∀ id p, w.view id = some p → p.Recoverable := by
  obtain ⟨w', hrun, -, habsent, hrestarted⟩ := startup_run env hrunning hw hworkers
  rw [hrun]
  constructor
  · intro hunwedged id p hview
    obtain ⟨q, hview', hq⟩ := hrestarted id p hview
    exact hq.unwedged_iff.mp (hunwedged id q hview')
  · intro hrecoverable id q hview'
    cases hview : w.view id with
    | none =>
      rw [habsent id hview] at hview'
      cases hview'
    | some p =>
      obtain ⟨q', hq', hrest⟩ := hrestarted id p hview
      cases hview'.symm.trans hq'
      exact hrest.unwedged_iff.mpr (hrecoverable id p hview)

/-! ## With a cut -/

/-- The operations after which the procedure may be cut. -/
def ServerOp.isAppend : ServerOp → Bool
  | .store (.append _ _) => true
  | _ => false

section Cut

variable {S T : RunProjection → Prop} {p q r : SessionProjection} {run : RunProjection}

theorem Interrupts.trans (h : Interrupts S p q) (h' : Interrupts T q r)
    (hT : ∀ run, T run → run.status ≠ .interrupted) : Interrupts (fun run => S run ∨ T run) p r := by
  refine ⟨h'.permissions.trans h.permissions, ?_, fun hnone => h'.absent (h.absent hnone), ?_, ?_⟩
  · rw [h'.paused, h.paused]
    constructor
    · rintro ((hpaused | ⟨runId, run, hrun, hS⟩) | ⟨runId, run, hrun, hrunT⟩)
      · exact .inl hpaused
      · exact .inr ⟨runId, run, hrun, .inl hS⟩
      · have hmem := (h.mem_iff (hT run hrunT)).mp ((SortedMap.mem_values_iff _).mpr ⟨runId, hrun⟩)
        obtain ⟨runId', hrun'⟩ := (SortedMap.mem_values_iff _).mp hmem.1
        exact .inr ⟨runId', run, hrun', .inr hrunT⟩
    · rintro (hpaused | ⟨runId, run, hrun, hST⟩)
      · exact .inl (.inl hpaused)
      · by_cases hS : S run
        · exact .inl (.inr ⟨runId, run, hrun, hS⟩)
        · exact .inr ⟨runId, run, h.kept hrun hS, hST.resolve_left hS⟩
  · intro runId run hrun hST
    by_cases hS : S run
    · obtain ⟨error, hafter⟩ := h.hit hrun hS
      exact ⟨error, h'.kept hafter fun hrunT => hT _ hrunT rfl⟩
    · exact h'.hit (h.kept hrun hS) (hST.resolve_left hS)
  · intro runId run hrun hST
    rw [not_or] at hST
    exact h'.kept (h.kept hrun hST.1) hST.2

/-- No run is running. -/
def SessionProjection.Idle (p : SessionProjection) : Prop :=
  ∀ run ∈ p.runs.values, run.status ≠ .running

theorem SessionProjection.Idle.activeRun (h : p.Idle) : p.activeRun = none := by
  rw [SessionProjection.activeRun, List.find?_eq_none]
  intro run hrun
  simpa using h run hrun

theorem Interrupts.idle (h : Interrupts S p q) (hp : p.Idle) : q.Idle := by
  intro run hrun hstatus
  have hne : run.status ≠ .interrupted := by rw [hstatus]; decide
  exact hp run ((h.mem_iff hne).mp hrun).1 hstatus

/-- Interrupting runs whose native call was cut short keeps a session recoverable. -/
theorem Interrupts.recoverable (h : Interrupts S p q) (hS : ∀ run, S run → run.nativeCutShort = true)
    (hidle : p.Idle) (hp : p.Recoverable) : q.Recoverable := by
  refine ⟨fun run hrun hstatus => absurd hstatus (h.idle hidle run hrun), ?_⟩
  intro run hrun hstatus hnot
  have hne : run.status ≠ .interrupted := by rw [hstatus]; decide
  obtain ⟨hmem, -⟩ := (h.mem_iff hne).mp hrun
  rcases hp.waiting run hmem hstatus hnot with ⟨hall, hresumes⟩ | ⟨call, hcall, hactionable⟩
  · refine .inl ⟨hall, ?_⟩
    -- a session that a worker is started for has no native call cut short
    have hnone : ∀ {runId run}, p.runs.get? runId = some run → ¬ S run := by
      intro runId run hrun hrunS
      have hfalse := hresumes.1 run ((SortedMap.mem_values_iff _).mpr ⟨runId, hrun⟩)
      rw [hS run hrunS] at hfalse
      cases hfalse
    have hruns : q.runs = p.runs := by
      refine SortedMap.ext_get? fun runId => ?_
      cases hrun : p.runs.get? runId with
      | none => exact h.absent hrun
      | some run => exact h.kept hrun (hnone hrun)
    rw [SessionProjection.Resumes, SessionProjection.readyActionRun, hruns]
    exact hresumes
  · refine .inr ⟨call, hcall, ?_⟩
    rw [SessionProjection.actionable_congr h.permissions]
    exact hactionable

theorem SessionProjection.mem_reload_runs :
    run ∈ p.reload.runs.values ↔ ∃ before ∈ p.runs.values, run = before.reload := by
  rw [SessionProjection.reload, SortedMap.values_mapValues, List.mem_map]
  refine exists_congr fun before => ?_
  rw [eq_comm]

theorem SessionProjection.Idle.reload (h : p.Idle) : p.reload.Idle := by
  intro run hrun
  obtain ⟨before, hmem, rfl⟩ := mem_reload_runs.mp hrun
  exact h before hmem

theorem SessionProjection.Resumes.reload (h : p.Resumes) : p.reload.Resumes := by
  rw [resumes_iff] at h ⊢
  obtain ⟨hnone, ready, hready, hrest⟩ := h
  refine ⟨fun run hrun hstatus => ?_, ready.reload, mem_reload_runs.mpr ⟨ready, hready, rfl⟩, hrest⟩
  obtain ⟨before, hmem, rfl⟩ := mem_reload_runs.mp hrun
  exact hnone before hmem hstatus

theorem SessionProjection.Recoverable.reload (h : p.Recoverable) (hidle : p.Idle) :
    p.reload.Recoverable := by
  refine ⟨fun run hrun hstatus => absurd hstatus (hidle.reload run hrun), ?_⟩
  intro run hrun hstatus hnot
  obtain ⟨before, hmem, rfl⟩ := mem_reload_runs.mp hrun
  rcases h.waiting before hmem hstatus hnot with ⟨hall, hresumes⟩ | hactionable
  · exact .inl ⟨hall, hresumes.reload⟩
  · exact .inr hactionable

end Cut

/-! ## What startup appends -/

section Protocol

/-- Startup appends that a session is interrupted, or ends runs it has just found in its
projection: the active one, or those cut short. -/
def startupAllows (a : Option (String × SessionProjection)) : ServerOp → Prop
  | .store (.append id events) =>
    (∃ reason, events = [.sessionInterrupted reason]) ∨
      ∃ p reason, a = some (id, p) ∧
        ((∃ run, p.activeRun = some run ∧ events = [.runInterrupted run.runId reason]) ∨
          events = ((p.runs.values.filter (·.nativeCutShort)).map (·.runId)).map fun runId =>
            .runInterrupted runId reason)
  | .store .runningSessions | .store .sessionIds | .store (.projection _) => True
  | .store _ => False
  | _ => True

/-- The projection read last. -/
def startupNext (a : Option (String × SessionProjection)) :
    (op : ServerOp) → op.Reply → Option (String × SessionProjection)
  | .store (.projection id), .ok p => some (id, p)
  | .store (.append _ _), _ => none
  | _, _ => a

theorem startup_quiet : Quiet startupAllows startupNext where
  publish _ _ := ⟨trivial, rfl⟩
  worker _ _ := ⟨trivial, rfl⟩
  release _ _ := ⟨trivial, rfl⟩
  shutdown _ _ := ⟨trivial, rfl⟩

theorem appendEvent_follows {a : Option (String × SessionProjection)} {id : String}
    {event : SemanticEvent} (h : startupAllows a (.store (.append id [event]))) :
    (onServer (appendEvent id event)).Follows startupAllows startupNext (fun _ _ => True) a := by
  rw [appendEvent, onServer_bind, onServer_run]
  refine follows_onStore h (fun records => ?_) fun _ => trivial
  cases records <;> exact trivial

theorem recoverSession_follows (id : String) (a : Option (String × SessionProjection)) :
    (onServer (recoverSession id)).Follows startupAllows startupNext (fun _ _ => True) a := by
  rw [recoverSession, onServer_bind]
  refine (appendEvent_follows (.inl ⟨_, rfl⟩)).bind (fun b record _ => ?_) fun _ _ _ => trivial
  rw [onServer_bind, onServer_run]
  refine follows_onStore trivial (fun p => ?_) fun _ => trivial
  cases hrun : p.activeRun with
  | none => exact trivial
  | some run =>
    dsimp only
    rw [onServer_bind]
    refine (appendEvent_follows ?_).bind (fun _ _ _ => trivial) fun _ _ _ => trivial
    exact .inr ⟨p, _, rfl, .inl ⟨run, hrun, rfl⟩⟩

theorem recoverSessions_follows (ids : List String) (a : Option (String × SessionProjection)) :
    (onServer (recoverSessions ids)).Follows startupAllows startupNext (fun _ _ => True) a := by
  induction ids generalizing a with
  | nil => exact trivial
  | cons id ids ih =>
    rw [recoverSessions, onServer_bind]
    refine (recoverSession_follows id a).bind (fun b record _ => ?_) fun _ _ _ => trivial
    rw [onServer_bind]
    exact (ih b).bind (fun _ _ _ => trivial) fun _ _ _ => trivial

theorem resumeSession_follows (id : String) (a : Option (String × SessionProjection)) :
    (resumeSession id).Follows startupAllows startupNext (fun _ _ => True) a := by
  refine follows_onStore trivial (fun p => ?_) fun _ => trivial
  refine iteInduction (fun _ => ?_) fun _ => ?_
  · refine (startup_quiet.appendMany (Q := fun _ _ => True) ?_ fun _ => trivial).bind
      (fun _ _ _ => trivial) fun _ _ _ => trivial
    exact .inr ⟨p, _, rfl, .inr rfl⟩
  · refine iteInduction (fun _ => ?_) fun _ => trivial
    exact startup_quiet.spawnWorker.mono fun _ _ _ => trivial

theorem resumeSessions_follows (ids : List String) (a : Option (String × SessionProjection)) :
    (resumeSessions ids).Follows startupAllows startupNext (fun _ _ => True) a := by
  induction ids generalizing a with
  | nil => exact trivial
  | cons id ids ih =>
    exact (resumeSession_follows id a).bind (fun b _ _ => ih b) fun _ _ _ => trivial

theorem startup_follows (a : Option (String × SessionProjection)) :
    startup.Follows startupAllows startupNext (fun _ _ => True) a := by
  refine Program.Follows.bind (Q := fun _ _ => True) ?_ ?_ fun _ _ _ => trivial
  · rw [recoverRunningSessions, onServer_bind, onServer_run]
    exact follows_onStore trivial (fun ids => recoverSessions_follows ids _) fun _ => trivial
  · intro b records _
    exact follows_onStore trivial (fun ids => resumeSessions_follows ids _) fun _ => trivial

/-- Partway through startup in a world whose runs were all idle: native calls cut short may be
interrupted, and the projection read last is current. -/
structure Partway (w₀ : World) (a : Option (String × SessionProjection)) (w : World) : Prop where
  sound : w.Sound
  absent : ∀ id, w₀.view id = none → w.view id = none
  views : ∀ id p, w₀.view id = some p → ∃ q S, w.view id = some q ∧ Interrupts S p q ∧
    ∀ run, S run → run.nativeCutShort = true
  current : ∀ id p, a = some (id, p) → w.view id = some p

theorem Partway.of_views {w₀ w w' : World} {a a' : Option (String × SessionProjection)}
    (h : Partway w₀ a w) (hsound : w'.Sound) (hviews : ∀ id, w'.view id = w.view id)
    (hcurrent : ∀ id p, a' = some (id, p) → w.view id = some p) : Partway w₀ a' w' where
  sound := hsound
  absent id hnone := (hviews id).trans (h.absent id hnone)
  views id p hp := by
    obtain ⟨q, S, hq, hrest⟩ := h.views id p hp
    exact ⟨q, S, (hviews id).trans hq, hrest⟩
  current id p ha := (hviews id).trans (hcurrent id p ha)

theorem Partway.append {w₀ w : World} {a : Option (String × SessionProjection)} (env : Surroundings)
    (hidle : ∀ id p, w₀.view id = some p → p.Idle) (h : Partway w₀ a w) (id : String)
    (events : List SemanticEvent) (hallowed : startupAllows a (.store (.append id events))) :
    Partway w₀ none (World.handle env (.store (.append id events)) w).2 := by
  have hsound := World.handle_sound env h.sound (.store (.append id events))
  rcases World.handle_append_view env h.sound id events with
    hviews | ⟨p₁, q, hp₁, happly, hq, hothers⟩
  · exact h.of_views hsound hviews fun _ _ ha => by cases ha
  · refine ⟨hsound, ?_, ?_, fun _ _ ha => by cases ha⟩
    · intro other hnone
      have hne : other ≠ id := by
        rintro rfl
        rw [h.absent other hnone] at hp₁
        cases hp₁
      exact (hothers other hne).trans (h.absent other hnone)
    · intro other p hp
      obtain ⟨p', S, hp', hinterrupts, hS⟩ := h.views other p hp
      by_cases hne : other = id
      · subst hne
        cases hp₁.symm.trans hp'
        rcases hallowed with ⟨reason, rfl⟩ | ⟨p', reason, rfl, ⟨run, hactive, rfl⟩ | rfl⟩
        · -- the session is interrupted, its runs stay
          obtain ⟨q', hone, hnil⟩ := SessionProjection.applyAll_cons_eq_ok.mp happly
          obtain ⟨state, -, heq⟩ := SessionProjection.apply_eq_ok.mp hone
          cases heq
          cases hnil
          exact ⟨_, S, hq, ⟨hinterrupts.permissions, hinterrupts.paused, hinterrupts.absent,
            hinterrupts.hit, hinterrupts.kept⟩, hS⟩
        · cases hp₁.symm.trans (h.current _ _ rfl)
          rw [(hinterrupts.idle (hidle _ p hp)).activeRun] at hactive
          cases hactive
        · cases hp₁.symm.trans (h.current _ _ rfl)
          have hkeyed := Store.Sound.wellKeyed_view h.sound hp₁
          obtain ⟨q', hq', hcut⟩ := cutShort_applyAll hkeyed reason
          cases happly.symm.trans hq'
          refine ⟨q, _, hq, hinterrupts.trans hcut fun run hrun hstatus => ?_, ?_⟩
          · rw [RunProjection.status_of_nativeCutShort hrun] at hstatus
            cases hstatus
          · exact fun run hrun => hrun.elim (hS run) id
      · exact ⟨p', S, (hothers other hne).trans hp', hinterrupts, hS⟩

theorem Partway.step {w₀ : World} (env : Surroundings)
    (hidle : ∀ id p, w₀.view id = some p → p.Idle) (a : Option (String × SessionProjection))
    (op : ServerOp) (w : World) (h : Partway w₀ a w) (hallowed : startupAllows a op) :
    Partway w₀ (startupNext a op (World.handle env op w).1) (World.handle env op w).2 := by
  have hsound := World.handle_sound env h.sound op
  cases op with
  | publish record => exact h.of_views hsound (fun _ => rfl) h.current
  | startWorker id => exact h.of_views hsound (fun _ => rfl) h.current
  | external op => exact h.of_views hsound (fun _ => rfl) h.current
  | store op =>
    cases op with
    | runningSessions => exact h.of_views hsound (fun _ => rfl) h.current
    | sessionIds => exact h.of_views hsound (fun _ => rfl) h.current
    | append id events => exact h.append env hidle id events hallowed
    | projection id =>
      refine h.of_views hsound (Store.Sound.view_projection h.sound id) fun id' p ha => ?_
      change startupNext a (.store (.projection id)) (w.store.projection id).1 = _ at ha
      cases hp : (w.store.projection id).1 with
      | error e =>
        rw [hp] at ha
        exact h.current id' p ha
      | ok q =>
        rw [hp] at ha
        cases ha
        exact Store.Sound.view_of_projection h.sound hp
    | _ => exact absurd hallowed not_false

end Protocol

/-! ## The cut that loses a run -/

section Lost

variable (env : Surroundings) {w : World} {id : String} {ids : List String} {p : SessionProjection}

theorem mem_cuts_onStore {op : StoreOp} {w' : World} {r : op.Result}
    (hop : (ServerOp.store op).isAppend = true)
    (h : (onStore op).run (World.handle env) w = (.ok r, w')) :
    w' ∈ (onStore op).cuts (World.handle env) ServerOp.isAppend w := by
  have hstate : (World.handle env (.store op) w).2 = w' := by
    rw [onStore, Program.run_call, Program.run_ofExcept] at h
    exact congrArg Prod.snd h
  rw [onStore, Program.cuts, if_pos hop, hstate]
  exact List.mem_cons_self

/-- Between its two appends, recovery leaves the active run of a session in phase interrupted. -/
theorem recoverSession_cut (hw : w.Sound) (hview : w.view id = some p)
    (hphase : p.state.phase = .running) :
    ∃ c ∈ (onServer (recoverSession id)).cuts (World.handle env) ServerOp.isAppend w, c.Sound ∧
      ∃ q, c.view id = some q ∧ q.runs = p.runs ∧ q.state.phase = .interrupted := by
  obtain ⟨q, happly, hruns, -, -, hq⟩ := SessionProjection.apply_sessionInterrupted hphase
    "server_restart" (p.state.lastEventId.getD 0 + 1)
  have hone : p.applyAll [.sessionInterrupted "server_restart"] = .ok q :=
    SessionProjection.applyAll_cons happly
  obtain ⟨records, c, hrun, hc, hview', -, -⟩ := storeAppend_run env hw hview hone
  refine ⟨c, ?_, hc, q, hview', hruns, hq⟩
  rw [recoverSession, onServer_bind, appendEvent, onServer_bind, onServer_run]
  exact Program.mem_cuts_bind_left _ _
    (Program.mem_cuts_bind_left _ _ (mem_cuts_onStore env rfl hrun))

theorem recoverSessions_cut (hw : w.Sound) (hnodup : ids.Nodup)
    (hphases : ∀ id ∈ ids, ∃ p, w.view id = some p ∧ p.state.phase = .running) (hid : id ∈ ids)
    (hview : w.view id = some p) :
    ∃ c ∈ (onServer (recoverSessions ids)).cuts (World.handle env) ServerOp.isAppend w, c.Sound ∧
      ∃ q, c.view id = some q ∧ q.runs = p.runs ∧ q.state.phase = .interrupted := by
  induction ids generalizing w with
  | nil => cases hid
  | cons first ids ih =>
    obtain ⟨hfresh, hnodup⟩ := List.nodup_cons.mp hnodup
    obtain ⟨p', hview', hphase⟩ := hphases first List.mem_cons_self
    rw [recoverSessions, onServer_bind]
    rcases List.mem_cons.mp hid with rfl | hid
    · cases hview.symm.trans hview'
      obtain ⟨c, hc, hrest⟩ := recoverSession_cut env hw hview hphase
      exact ⟨c, Program.mem_cuts_bind_left _ _ hc, hrest⟩
    · obtain ⟨record, w₁, q, hfirst, hw₁, htouches, -, -⟩ := recoverSession_run env hw hview' hphase
      have hother : ∀ other ∈ ids, w₁.view other = w.view other := by
        intro other hmem
        exact htouches.store.views other fun heq => hfresh (heq ▸ hmem)
      obtain ⟨c, hc, hrest⟩ := ih hw₁ hnodup
        (fun other hmem => by
          rw [hother other hmem]
          exact hphases other (List.mem_cons_of_mem _ hmem))
        hid ((hother id hid).trans hview)
      refine ⟨c, Program.mem_cuts_bind_right _ hfirst ?_, hrest⟩
      rw [onServer_bind]
      exact Program.mem_cuts_bind_left _ _ hc

theorem startup_cut (hw : w.Sound) (hview : w.view id = some p) (hphase : p.state.phase = .running) :
    ∃ c ∈ startup.cuts (World.handle env) ServerOp.isAppend w, c.Sound ∧
      ∃ q, c.view id = some q ∧ q.runs = p.runs ∧ q.state.phase = .interrupted := by
  have hnodup : w.store.db.runningSessions.Nodup :=
    (SortedMap.nodup_keys _).sublist (List.filter_sublist.map _)
  obtain ⟨c, hc, hrest⟩ := recoverSessions_cut (w := w.tick) env hw hnodup
    (fun id hid => (mem_runningSessions hw).mp hid)
    ((mem_runningSessions hw).mpr ⟨p, hview, hphase⟩) hview
  refine ⟨c, Program.mem_cuts_bind_left _ _ ?_, hrest⟩
  rw [recoverRunningSessions, onServer_bind, onServer_run]
  exact hc

end Lost

/-- **Startup and wedged runs.** Startup leaves no run wedged exactly if every session is
recoverable. It does so also when it is cut after any of its appends and run again exactly if
besides no run is running. -/
theorem startup_unwedged_iff (db : Database) (env : Surroundings)
    (hdb : (Store.ofDatabase db).Sound) (hstarting : ∀ n, env.answer n .isShutdown = false) :
    ((startup.run (World.handle env) (World.boot db)).2.Unwedged ↔
      ∀ id p, (World.boot db).view id = some p → p.Recoverable) ∧
    ((startup.run (World.handle env) (World.boot db)).2.Unwedged ∧
        (∀ c ∈ startup.cuts (World.handle env) ServerOp.isAppend (World.boot db),
          (startup.run (World.handle env) (World.boot c.store.db)).2.Unwedged) ↔
      ∀ id p, (World.boot db).view id = some p → p.Recoverable ∧ p.Idle) := by
  have huncut : ∀ {db : Database}, (Store.ofDatabase db).Sound →
      ((startup.run (World.handle env) (World.boot db)).2.Unwedged ↔
        ∀ id p, (World.boot db).view id = some p → p.Recoverable) :=
    fun hdb => startup_run_unwedged_iff env hstarting hdb rfl
  refine ⟨huncut hdb, ?_⟩
  constructor
  · rintro ⟨hunwedged, hcuts⟩ id p hview
    have hrecoverable := (huncut hdb).mp hunwedged
    refine ⟨hrecoverable id p hview, fun run hrun hstatus => ?_⟩
    obtain ⟨hphase, -⟩ := (hrecoverable id p hview).active run hrun hstatus
    obtain ⟨c, hc, hsound, q, hq, hruns, hinterrupted⟩ := startup_cut (w := World.boot db) env
      hdb hview hphase
    -- the second start finds the run in a session that is not running
    have hreload : (World.boot c.store.db).view id = some q.reload := by
      have hreload := Store.Sound.view_ofDatabase hsound id
      rw [show c.store.view id = some q from hq] at hreload
      exact hreload
    have hlost := (huncut (Store.Sound.ofDatabase hsound)).mp (hcuts c hc) id _ hreload
    obtain ⟨hphase', -⟩ := hlost.active run.reload
      (SessionProjection.mem_reload_runs.mpr ⟨run, hruns ▸ hrun, rfl⟩) hstatus
    rw [SessionProjection.reload_state, hinterrupted] at hphase'
    cases hphase'
  · intro h
    refine ⟨(huncut hdb).mpr fun id p hview => (h id p hview).1, fun c hc => ?_⟩
    have hidle : ∀ id p, (World.boot db).view id = some p → p.Idle :=
      fun id p hview => (h id p hview).2
    have hstart : Partway (World.boot db) none (.boot db) := by
      refine ⟨hdb, fun _ => id, fun id p hview => ?_, fun _ _ ha => by cases ha⟩
      refine ⟨p, fun _ => False, hview, .none _ rfl rfl rfl fun _ => not_false, ?_⟩
      exact fun _ hfalse => hfalse.elim
    obtain ⟨b, hpartway⟩ := (startup_follows none).cuts (Partway.step env hidle) hstart c hc
    refine (huncut (Store.Sound.ofDatabase hpartway.sound)).mpr fun id q hview => ?_
    have hreload := Store.Sound.view_ofDatabase hpartway.sound id
    rw [show (Store.ofDatabase c.store.db).view id = some q from hview] at hreload
    obtain ⟨q', hq', rfl⟩ := Option.map_eq_some_iff.mp hreload.symm
    cases hbefore : (World.boot db).view id with
    | none =>
      rw [show c.store.view id = none from hpartway.absent id hbefore] at hq'
      cases hq'
    | some p =>
      obtain ⟨q₁, S, hq₁, hinterrupts, hS⟩ := hpartway.views id p hbefore
      cases hq'.symm.trans hq₁
      have hp := h id p hbefore
      exact (hinterrupts.recoverable hS hp.2 hp.1).reload (hinterrupts.idle hp.2)

theorem stoppedStore_sound (events : List SemanticEvent) :
    (Store.ofDatabase (stoppedStore events).db).Sound :=
  ((Store.Sound.empty _).executeAll _).ofDatabase

theorem stoppedStore_view {events : List SemanticEvent} {id : String} {p : SessionProjection}
    (hkeys : (stoppedStore events).db.sessions.keys = ["s"])
    (hview : (World.boot (stoppedStore events).db).view id = some p) : id = "s" := by
  have hkey : id ∈ (stoppedStore events).db.sessions.keys :=
    (mem_keys_of_view (w := World.boot _) (stoppedStore_sound events)).mpr ⟨p, hview⟩
  rw [hkeys] at hkey
  exact List.mem_singleton.mp hkey

/-- A run has started. -/
def startedRun : List SemanticEvent :=
  [.runQueued "r" none "p" "m" .null, .sessionPhaseChanged .created .running none,
    .runStarted "r" "t" 1]

/-- A run waits for a permission. -/
def waitingRun : List SemanticEvent :=
  startedRun ++ [.toolCallEmitted "r" "m" "c" "a" "bash" .null "" true,
    .runRequiresAction "r" ["c"], .sessionPhaseChanged .running .interrupted none,
    .permissionRequested "q" "r" (some "c") "a" "bash" .null]

/-- The server stops while a run is running, and again after the first append of its next start:
the third start leaves the run running. -/
theorem startup_wedged :
    (Store.ofDatabase (stoppedStore startedRun).db).Sound ∧
    ∃ c ∈ startup.cuts (World.handle (.plain {})) ServerOp.isAppend
        (World.boot (stoppedStore startedRun).db),
      ¬ (startup.run (World.handle (.plain {})) (World.boot c.store.db)).2.Unwedged := by
  refine ⟨stoppedStore_sound _, ?_⟩
  have hstatus : (startup.cuts (World.handle (.plain {})) ServerOp.isAppend
      (World.boot (stoppedStore startedRun).db)).map (fun c =>
        ((startup.run (World.handle (.plain {})) (World.boot c.store.db)).2.view "s").bind fun p =>
          (p.runs.get? "r").map (·.status)) = [some .running, some .interrupted] := by
    decide +kernel
  obtain ⟨c, hc, hrunning⟩ := List.mem_map.mp (hstatus ▸ List.mem_cons_self)
  obtain ⟨p, hview, hrun⟩ := Option.bind_eq_some_iff.mp hrunning
  obtain ⟨run, hget, hrun⟩ := Option.map_eq_some_iff.mp hrun
  refine ⟨c, hc, fun hunwedged => ?_⟩
  exact (hunwedged "s" p hview run ((SortedMap.mem_values_iff _).mpr ⟨"r", hget⟩)).stopped hrun

instance (p : SessionProjection) : Decidable p.Resumes :=
  inferInstanceAs (Decidable (_ ∧ _))

instance (p : SessionProjection) : Decidable p.Idle :=
  inferInstanceAs (Decidable (∀ run ∈ _, _))

instance (p : SessionProjection) : Decidable p.Recoverable :=
  decidable_of_iff
    ((∀ run ∈ p.runs.values, run.status = .running →
        p.state.phase = .running ∧ p.activeRun = some run) ∧
      ∀ run ∈ p.runs.values, run.status = .requiresAction → run.nativeCutShort = false →
        (run.toolCalls.values.all (·.result.isSome) = true ∧ p.Resumes) ∨
          ∃ call ∈ run.toolCalls.values, p.actionable run.runId call = true)
    ⟨fun h => ⟨h.1, h.2⟩, fun h => ⟨h.1, h.2⟩⟩

/-- A run that waits for a client survives startup, cut or not. -/
theorem startup_unwedged_iff_waiting :
    (startup.run (World.handle (.plain {})) (World.boot (stoppedStore waitingRun).db)).2.Unwedged ∧
    ∀ c ∈ startup.cuts (World.handle (.plain {})) ServerOp.isAppend
        (World.boot (stoppedStore waitingRun).db),
      (startup.run (World.handle (.plain {})) (World.boot c.store.db)).2.Unwedged := by
  refine ((startup_unwedged_iff _ (.plain {}) (stoppedStore_sound waitingRun)
    fun _ => rfl).2).mpr fun id p hview => ?_
  have hkeys : (stoppedStore waitingRun).db.sessions.keys = ["s"] := by decide +kernel
  obtain rfl := stoppedStore_view hkeys hview
  have hcheck : ((World.boot (stoppedStore waitingRun).db).view "s").all
      (fun p => decide (p.Recoverable ∧ p.Idle)) = true := by
    decide +kernel
  rw [hview] at hcheck
  simpa using hcheck

/-! ## Queued runs -/

/-- Every queued run is in a session whose queue is paused, or that has a worker. -/
def World.Unstranded (w : World) : Prop :=
  ∀ id p, w.view id = some p → ∀ run ∈ p.runs.values, run.status = .queued →
    p.queuePaused = true ∨ id ∈ w.workers

/-- Where startup finds the queued runs of a session again: the queue is paused already, or a run
is interrupted, or a run has all its results. -/
def SessionProjection.QueueRecovers (p : SessionProjection) : Prop :=
  (∃ run ∈ p.runs.values, run.status = .queued) →
    p.queuePaused = true ∨ (p.state.phase = .running ∧ p.activeRun.isSome = true) ∨
      (∃ run ∈ p.runs.values, run.nativeCutShort = true) ∨ p.readyActionRun.isSome = true

section Queued

variable {p q : SessionProjection}

theorem Interrupts.paused_iff {S : RunProjection → Prop} (h : Interrupts S p q) :
    q.queuePaused = true ↔ p.queuePaused = true ∨ ∃ run ∈ p.runs.values, S run := by
  rw [h.paused]
  refine or_congr Iff.rfl ?_
  constructor
  · rintro ⟨runId, run, hrun, hS⟩
    exact ⟨run, (SortedMap.mem_values_iff _).mpr ⟨runId, hrun⟩, hS⟩
  · rintro ⟨run, hrun, hS⟩
    obtain ⟨runId, hrun⟩ := (SortedMap.mem_values_iff _).mp hrun
    exact ⟨runId, run, hrun, hS⟩

theorem Restarted.unstranded_iff {started : Prop} (h : Restarted p q started) :
    (∀ run ∈ q.runs.values, run.status = .queued → q.queuePaused = true ∨ started) ↔
      p.QueueRecovers := by
  obtain ⟨p₁, hactive, hcut, hstarted⟩ := h
  -- a queued run is neither the active one nor cut short
  have hqueued : ∀ {run : RunProjection}, run.status = .queued →
      (run ∈ q.runs.values ↔ run ∈ p.runs.values) := by
    intro run hstatus
    have hne : run.status ≠ .interrupted := by rw [hstatus]; decide
    rw [hcut.mem_iff hne, hactive.mem_iff hne, and_assoc]
    refine and_iff_left ⟨fun hS => ?_, fun hS => ?_⟩
    · rw [SessionProjection.status_of_activeRun hS.2] at hstatus
      cases hstatus
    · rw [RunProjection.status_of_nativeCutShort hS] at hstatus
      cases hstatus
  have hresumes : p₁.Resumes ↔ p.Resumes := by
    refine hactive.resumes_iff fun run hstatus hS => ?_
    rw [SessionProjection.status_of_activeRun hS.2] at hstatus
    cases hstatus
  have hcutShort : (∃ run ∈ p₁.runs.values, run.nativeCutShort = true) ↔
      ∃ run ∈ p.runs.values, run.nativeCutShort = true := by
    refine exists_congr fun run => and_congr_left fun hrun => ?_
    have hstatus := RunProjection.status_of_nativeCutShort hrun
    rw [hactive.mem_iff (by rw [hstatus]; decide)]
    refine and_iff_left fun hS => ?_
    rw [SessionProjection.status_of_activeRun hS.2] at hstatus
    cases hstatus
  have hrunning : (∃ run ∈ p.runs.values, p.state.phase = .running ∧ p.activeRun = some run) ↔
      p.state.phase = .running ∧ p.activeRun.isSome = true := by
    rw [Option.isSome_iff_exists]
    constructor
    · rintro ⟨run, -, hphase, hrun⟩
      exact ⟨hphase, run, hrun⟩
    · rintro ⟨hphase, run, hrun⟩
      exact ⟨run, List.mem_of_find?_eq_some hrun, hphase, hrun⟩
  have hfound : (q.queuePaused = true ∨ started) ↔
      (p.queuePaused = true ∨ (p.state.phase = .running ∧ p.activeRun.isSome = true) ∨
        (∃ run ∈ p.runs.values, run.nativeCutShort = true) ∨ p.readyActionRun.isSome = true) := by
    rw [hcut.paused_iff, hactive.paused_iff, hcutShort, hrunning, hstarted, hresumes,
      SessionProjection.Resumes, or_assoc, or_assoc]
    refine or_congr Iff.rfl (or_congr Iff.rfl ?_)
    constructor
    · rintro (hrun | ⟨-, hready⟩)
      · exact .inl hrun
      · exact .inr hready
    · rintro (hrun | hready)
      · exact .inl hrun
      · by_cases hany : ∃ run ∈ p.runs.values, run.nativeCutShort = true
        · exact .inl hany
        · refine .inr ⟨fun run hrun => ?_, hready⟩
          rw [← Bool.not_eq_true]
          exact fun hcut => hany ⟨run, hrun, hcut⟩
  rw [SessionProjection.QueueRecovers, ← hfound]
  constructor
  · rintro hall ⟨run, hrun, hstatus⟩
    exact hall run ((hqueued hstatus).mpr hrun) hstatus
  · exact fun hany run hrun hstatus => hany ⟨run, (hqueued hstatus).mp hrun, hstatus⟩

end Queued

/-- **Startup and queued runs.** Startup leaves every queued run in a session whose queue is paused
or that has a worker exactly if the queue of every session recovers. -/
theorem startup_unstranded_iff (db : Database) (env : Surroundings)
    (hdb : (Store.ofDatabase db).Sound) (hstarting : ∀ n, env.answer n .isShutdown = false) :
    (startup.run (World.handle env) (World.boot db)).2.Unstranded ↔
      ∀ id p, (World.boot db).view id = some p → p.QueueRecovers := by
  obtain ⟨w', hrun, -, habsent, hrestarted⟩ := startup_run (w := World.boot db) env hstarting hdb rfl
  rw [hrun]
  constructor
  · intro hunstranded id p hview
    obtain ⟨q, hview', hq⟩ := hrestarted id p hview
    exact hq.unstranded_iff.mp (hunstranded id q hview')
  · intro hrecovers id q hview'
    cases hview : (World.boot db).view id with
    | none =>
      rw [habsent id hview] at hview'
      cases hview'
    | some p =>
      obtain ⟨q', hq', hrest⟩ := hrestarted id p hview
      cases hview'.symm.trans hq'
      exact hrest.unstranded_iff.mpr (hrecovers id p hview)

/-- A run was queued, and the server stopped before a worker took it: nothing starts it again. -/
theorem startup_stranded :
    (Store.ofDatabase (stoppedStore [.runQueued "r" none "p" "m" .null]).db).Sound ∧
    ¬ (startup.run (World.handle (.plain {}))
      (World.boot (stoppedStore [.runQueued "r" none "p" "m" .null]).db)).2.Unstranded := by
  refine ⟨stoppedStore_sound _, fun hunstranded => ?_⟩
  have hfacts : (startup.run (World.handle (.plain {}))
      (World.boot (stoppedStore [.runQueued "r" none "p" "m" .null]).db)).2.workers = [] ∧
      ((startup.run (World.handle (.plain {}))
        (World.boot (stoppedStore [.runQueued "r" none "p" "m" .null]).db)).2.view "s").map
        (fun p => (p.queuePaused, (p.runs.get? "r").map (·.status))) =
          some (false, some .queued) := by
    decide +kernel
  obtain ⟨hworkers, hview⟩ := hfacts
  obtain ⟨p, hview, hfields⟩ := Option.map_eq_some_iff.mp hview
  simp only [Prod.mk.injEq] at hfields
  obtain ⟨run, hrun, hstatus⟩ := Option.map_eq_some_iff.mp hfields.2
  rcases hunstranded "s" p hview run ((SortedMap.mem_values_iff _).mpr ⟨"r", hrun⟩) hstatus with
    hpaused | hworker
  · rw [hfields.1] at hpaused
    cases hpaused
  · rw [hworkers] at hworker
    cases hworker

instance (p : SessionProjection) : Decidable p.QueueRecovers :=
  inferInstanceAs (Decidable (_ → _))

/-- A run queued behind one that was running is found again. -/
theorem startup_unstranded_iff_behind :
    (startup.run (World.handle (.plain {})) (World.boot (stoppedStore
      (startedRun ++ [.runQueued "r2" none "p" "m" .null])).db)).2.Unstranded := by
  refine (startup_unstranded_iff _ (.plain {}) (stoppedStore_sound _) fun _ => rfl).mpr ?_
  intro id p hview
  have hkeys : (stoppedStore (startedRun ++ [.runQueued "r2" none "p" "m" .null])).db.sessions.keys =
      ["s"] := by
    decide +kernel
  obtain rfl := stoppedStore_view hkeys hview
  have hcheck : ((World.boot (stoppedStore
      (startedRun ++ [.runQueued "r2" none "p" "m" .null])).db).view "s").all
      (fun p => decide p.QueueRecovers) = true := by
    decide +kernel
  rw [hview] at hcheck
  simpa using hcheck

end Piqo
