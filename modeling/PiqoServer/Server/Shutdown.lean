import PiqoServer.Library.Schedule
import PiqoServer.Server.Delegation
import PiqoServer.Server.Requests
import PiqoServer.Server.Startup
import PiqoServer.Server.Worker
import PiqoServer.Core.History

/-!
# Shutdown

`SessionSupervisor::shutdown` (`piqo-server/src/supervisor.rs`) cancels the token, takes the set of
workers, waits for them or aborts them, and then sweeps the sessions: it lists them, and for each of
them reads the projection and appends the events that interrupt what is open. Requests and workers
look at the token when they start, and go on when they have passed it; a worker that is started
after the set was taken is nobody's to wait for.

Tasks take turns, one operation each. The session locks are left out, so that a schedule here may
have workers of one session take turns too.

## Main definitions

* `SessionProjection.Settled`: no run is open and the session is not running
* `interruptRemainingRuns`: the sweep
* `ServerMachine`, `ServerMachine.step`: requests, workers and the shutdown in any order
* `Sweep`: how far the sweep has come
* `ServerMachine.BehindSweep`: what no task may do behind the sweep

## Main results

* `shutdown_settles`: when the shutdown has returned all sessions are settled, as long as no task
  opens work behind the sweep
-/

namespace Piqo

/-! ## Settled sessions -/

namespace SemanticEvent

/-- The event queues a run or makes the session run. -/
def opens : SemanticEvent → Bool
  | .runQueued _ _ _ _ _ | .sessionPhaseChanged _ .running _ => true
  | _ => false

/-- The event ends a run or changes the phase. -/
def shuts : SemanticEvent → Bool
  | .runCompleted _ _ | .runFailed _ _ | .runCancelled _ _ | .runInterrupted _ _
  | .sessionPhaseChanged _ _ _ | .sessionInterrupted _ | .sessionForked _ _ => true
  | _ => false

end SemanticEvent

namespace SessionProjection

variable {p q : SessionProjection} {eventId : Nat} {e : SemanticEvent}

/-- Whether the session has an open run of this id. -/
def isOpen (p : SessionProjection) (runId : String) : Bool :=
  (p.runs.get? runId).any (·.status.live)

/-- No run is open, and the session is not running. -/
structure Settled (p : SessionProjection) : Prop where
  runs : ∀ runId, p.isOpen runId = false
  phase : p.state.phase ≠ .running

/-- The same runs are open, and both sessions run or both do not. -/
structure SameOpen (p q : SessionProjection) : Prop where
  runs : ∀ runId, q.isOpen runId = p.isOpen runId
  phase : q.state.phase = .running ↔ p.state.phase = .running

theorem SameOpen.refl (p : SessionProjection) : p.SameOpen p := ⟨fun _ => rfl, Iff.rfl⟩

theorem SameOpen.trans {r : SessionProjection} (h : p.SameOpen q) (h' : q.SameOpen r) :
    p.SameOpen r :=
  ⟨fun runId => (h'.runs runId).trans (h.runs runId), h'.phase.trans h.phase⟩

/-- An event opens a run only as it queues it, and closes one only as it ends it. -/
theorem apply_isOpen (h : p.apply eventId e = .ok q) (runId : String) :
    (q.isOpen runId = true → p.isOpen runId = true ∨ e.opens = true) ∧
      (p.isOpen runId = true → q.isOpen runId = true ∨ e.shuts = true) := by
  unfold isOpen
  rcases apply_runs h with hruns | ⟨id, run', hruns, hchange⟩
  · rw [hruns]
    exact ⟨.inl, .inl⟩
  · rw [hruns, SortedMap.get?_insert]
    split
    · next hid =>
      subst hid
      generalize p.runs.get? runId = before at hchange
      cases hchange with
      | queued he => exact ⟨fun _ => .inr (by rw [he]; rfl), by simp⟩
      | started run he hstatus =>
        refine ⟨fun _ => .inl ?_, fun _ => .inl rfl⟩
        rcases hstatus with hstatus | hstatus <;> simp [hstatus, RunStatus.live]
      | paused run he hstatus =>
        exact ⟨fun _ => .inl (by simp [hstatus, RunStatus.live]), fun _ => .inl rfl⟩
      | completed run he hlive =>
        exact ⟨by simp [RunStatus.live], fun _ => .inr (by rw [he]; rfl)⟩
      | failed run he hlive =>
        exact ⟨by simp [RunStatus.live], fun _ => .inr (by rw [he]; rfl)⟩
      | cancelled run he hlive =>
        exact ⟨by simp [RunStatus.live], fun _ => .inr (by rw [he]; rfl)⟩
      | interrupted run he hlive =>
        exact ⟨by simp [RunStatus.live], fun _ => .inr (by rw [he]; rfl)⟩
      | attempted run => exact ⟨.inl, .inl⟩
      | attemptFailed run => exact ⟨.inl, .inl⟩
      | emitted run => exact ⟨.inl, .inl⟩
      | claimed run => exact ⟨.inl, .inl⟩
      | answered run => exact ⟨.inl, .inl⟩
    · exact ⟨.inl, .inl⟩

theorem transition_phase {s t : SessionState} {next : SessionPhase} {sources : List SessionPhase}
    (h : s.transition next sources = .ok t) : t.phase = next := by
  obtain ⟨-, heq⟩ := Except.ite_ok_eq_ok.mp h
  cases heq
  rfl

/-- Only an event that shuts changes the phase, and only one that opens makes the session run. -/
theorem apply_phase (h : p.apply eventId e = .ok q) :
    q.state.phase = p.state.phase ∨ e.shuts = true ∧ (q.state.phase = .running → e.opens = true) := by
  obtain ⟨state, hphase, hstate⟩ := Except.map_eq_ok.mp (apply_state h)
  rw [hstate]
  change state.phase = _ ∨ _ ∧ (state.phase = _ → _)
  unfold SessionState.applyPhase at hphase
  split at hphase
  · obtain ⟨-, heq⟩ := Except.ite_error_eq_ok.mp hphase
    cases heq
    exact .inl rfl
  · obtain ⟨-, htransition⟩ := Except.ite_error_eq_ok.mp hphase
    refine .inr ⟨rfl, ?_⟩
    intro hrunning
    rw [transition_phase htransition] at hrunning
    rw [hrunning]
    rfl
  · refine .inr ⟨rfl, ?_⟩
    rw [transition_phase hphase]
    nofun
  · cases hphase
    exact .inr ⟨rfl, nofun⟩
  · cases hphase
    exact .inl rfl

/-- A settled session stays settled under events that open nothing. -/
theorem Settled.apply (hp : p.Settled) (he : e.opens = false) (h : p.apply eventId e = .ok q) :
    q.Settled where
  runs runId := by
    refine Bool.eq_false_iff.mpr ?_
    intro hopen
    rcases (apply_isOpen h runId).1 hopen with hbefore | hopens
    · rw [hp.runs runId] at hbefore
      cases hbefore
    · rw [he] at hopens
      cases hopens
  phase := by
    intro hrunning
    rcases apply_phase h with hsame | ⟨-, hopens⟩
    · exact hp.phase (hsame.symm.trans hrunning)
    · rw [hopens hrunning] at he
      cases he

/-- What is open stays the same under events that neither open nor shut anything. -/
theorem SameOpen.apply (hopens : e.opens = false) (hshuts : e.shuts = false)
    (h : p.apply eventId e = .ok q) : p.SameOpen q where
  runs runId := by
    obtain ⟨hbefore, hafter⟩ := apply_isOpen h runId
    simp only [hopens, hshuts, Bool.false_eq_true, or_false] at hbefore hafter
    exact Bool.eq_iff_iff.mpr ⟨hbefore, hafter⟩
  phase := by
    rcases apply_phase h with hsame | ⟨hshut, -⟩
    · rw [hsame]
    · rw [hshuts] at hshut
      cases hshut

/-- A relation to the start that every event of a batch keeps. -/
theorem applyAll_relates {R : SessionProjection → SessionProjection → Prop}
    (hrefl : ∀ p, R p p) (htrans : ∀ {p q r}, R p q → R q r → R p r)
    {events : List SemanticEvent}
    (hstep : ∀ e ∈ events, ∀ {p q : SessionProjection} {eventId : Nat},
      p.apply eventId e = .ok q → R p q)
    (h : p.applyAll events = .ok q) : R p q :=
  applyAll_keeps (fun e he _ _ hone hp => htrans hp (hstep e he hone)) h (hrefl p)

theorem Settled.applyAll {events : List SemanticEvent} (hp : p.Settled)
    (hevents : ∀ e ∈ events, e.opens = false) (h : p.applyAll events = .ok q) : q.Settled :=
  applyAll_relates (R := fun p q => p.Settled → q.Settled) (fun _ hp => hp)
    (fun h h' hp => h' (h hp)) (fun e he _ _ _ h hp => hp.apply (hevents e he) h) h hp

theorem SameOpen.applyAll {events : List SemanticEvent}
    (hevents : ∀ e ∈ events, e.opens = false ∧ e.shuts = false) (h : p.applyAll events = .ok q) :
    p.SameOpen q :=
  applyAll_relates SameOpen.refl SameOpen.trans
    (fun e he _ _ _ h => .apply (hevents e he).1 (hevents e he).2 h) h

end SessionProjection

/-! ## The sweep -/

/-- The events that interrupt what is open. -/
def SessionProjection.interruptions (reason : String) (p : SessionProjection) :
    List SemanticEvent :=
  ((p.runs.values.filter (·.status.live)).map fun run => .runInterrupted run.runId reason) ++
    if p.state.phase = .running then [.sessionPhaseChanged .running .interrupted (some reason)]
    else []

/-- The sessions in turn. -/
def interruptSessions (reason : String) : List String → ServerProgram Unit
  | [] => return ()
  | sessionId :: sessionIds => do
    let events := (← onStore (.projection sessionId)).interruptions reason
    if events = [] then interruptSessions reason sessionIds
    else
      let _ ← appendMany sessionId events
      interruptSessions reason sessionIds

/-- `interrupt_remaining_runs`. -/
def interruptRemainingRuns (reason : String) : ServerProgram Unit := do
  interruptSessions reason (← onStore .sessionIds)

namespace SessionProjection

variable {p q : SessionProjection} {reason : String}

theorem isOpen_iff (hkeyed : p.WellKeyed) {runId : String} :
    p.isOpen runId = true ↔ ∃ run ∈ p.runs.values.filter (·.status.live), run.runId = runId := by
  simp only [isOpen, Option.any_eq_true, List.mem_filter, mem_values_runs hkeyed]
  constructor
  · rintro ⟨run, hrun, hlive⟩
    have hid := hkeyed.run hrun
    exact ⟨run, ⟨hid ▸ hrun, hlive⟩, hid⟩
  · rintro ⟨run, ⟨hrun, hlive⟩, rfl⟩
    exact ⟨run, hrun, hlive⟩

/-- A session without interruptions is settled. -/
theorem settled_of_interruptions (hkeyed : p.WellKeyed) (h : p.interruptions reason = []) :
    p.Settled := by
  rw [interruptions, List.append_eq_nil_iff, List.map_eq_nil_iff] at h
  obtain ⟨hruns, hphase⟩ := h
  constructor
  · intro runId
    refine Bool.eq_false_iff.mpr ?_
    intro hopen
    obtain ⟨run, hrun, -⟩ := (isOpen_iff hkeyed).mp hopen
    rw [hruns] at hrun
    cases hrun
  · intro hrunning
    rw [if_pos hrunning] at hphase
    cases hphase

/-- The ids of the open runs. -/
def openIds (p : SessionProjection) : List String :=
  (p.runs.values.filter (·.status.live)).map (·.runId)

theorem interruptions_eq (reason : String) (p : SessionProjection) :
    p.interruptions reason = (p.openIds.map fun runId => .runInterrupted runId reason) ++
      if p.state.phase = .running then [.sessionPhaseChanged .running .interrupted (some reason)]
      else [] := by
  rw [interruptions, openIds, List.map_map]
  rfl

theorem mem_openIds (hkeyed : p.WellKeyed) {runId : String} :
    runId ∈ p.openIds ↔ p.isOpen runId = true := by
  rw [isOpen_iff hkeyed, openIds, List.mem_map]

theorem nodup_openIds (hkeyed : p.WellKeyed) : p.openIds.Nodup := by
  have hids : p.runs.values.map (·.runId) = p.runs.keys := by
    rw [SortedMap.values, SortedMap.keys, List.map_map]
    refine List.map_congr_left ?_
    rintro ⟨runId, run⟩ hentry
    exact hkeyed.run ((SortedMap.get?_eq_some_iff _).mpr hentry)
  refine List.Nodup.sublist (List.Sublist.map _ List.filter_sublist) ?_
  rw [hids]
  exact SortedMap.nodup_keys _

/-- **The interruptions of a session settle it**, also when they were found in an earlier state of
it in which the same was open. -/
theorem applyAll_interruptions (hp : p.WellKeyed) (hq : q.WellKeyed) (hsame : p.SameOpen q)
    (reason : String) : ∃ r, q.applyAll (p.interruptions reason) = .ok r ∧ r.Settled := by
  have hlive : ∀ runId ∈ p.openIds, ∃ run, q.runs.get? runId = some run ∧
      run.status.live = true := by
    intro runId hid
    have hopen := (hsame.runs runId).trans ((mem_openIds hp).mp hid)
    simpa [isOpen, Option.any_eq_true] using hopen
  obtain ⟨q', hruns, hinterrupts⟩ := applyAll_runInterrupted reason (nodup_openIds hp) hq hlive
  have hphase : q'.state.phase = q.state.phase := by
    refine applyAll_relates (R := fun p q => q.state.phase = p.state.phase) (fun _ => rfl)
      (fun h h' => h'.trans h) ?_ hruns
    intro e he p q eventId happly
    obtain ⟨runId, -, rfl⟩ := List.mem_map.mp he
    obtain ⟨state, hstate, heq⟩ := Except.map_eq_ok.mp (apply_state happly)
    cases hstate
    rw [heq]
  -- the runs are closed after the first part
  have hclosed : ∀ runId, q'.isOpen runId = false := by
    intro runId
    cases hrun : q.runs.get? runId with
    | none => simp [isOpen, hinterrupts.absent hrun]
    | some run =>
      by_cases hmem : run.runId ∈ p.openIds
      · obtain ⟨error, hhit⟩ := hinterrupts.hit hrun hmem
        simp [isOpen, hhit, RunStatus.live]
      · have hkept := hinterrupts.kept hrun hmem
        rw [hq.run hrun, mem_openIds hp, ← hsame.runs] at hmem
        simpa [isOpen, hkept, hrun] using hmem
  rw [interruptions_eq]
  by_cases hrunning : p.state.phase = .running
  · rw [if_pos hrunning]
    let state : SessionState := { q'.state with
      phase := .interrupted, revision := q'.state.revision + 1
      lastEventId := some (q'.state.lastEventId.getD 0 + 1) }
    have hrunning' : q'.state.phase = .running := hphase.trans (hsame.phase.mpr hrunning)
    have happly : q'.apply (q'.state.lastEventId.getD 0 + 1)
        (.sessionPhaseChanged .running .interrupted (some reason)) = .ok { q' with state } := by
      refine apply_eq_ok.mpr ⟨state, ?_, rfl⟩
      simp [SessionState.apply, SessionState.applyPhase, SessionState.transition, hrunning',
        allowedSources, state, Except.map]
    refine ⟨{ q' with state }, applyAll_append.mpr ⟨q', hruns, ?_⟩, hclosed, by simp [state]⟩
    rw [applyAll_cons happly]
    rfl
  · rw [if_neg hrunning, List.append_nil]
    refine ⟨q', hruns, hclosed, ?_⟩
    rw [hphase]
    exact fun h => hrunning (hsame.phase.mp h)

end SessionProjection

/-! ## Views after an operation -/

section Views

variable {store : Store} {w : World} (env : Surroundings)

/-- A session that is new has nothing open. -/
theorem Store.Sound.view_of_createSession (h : store.Sound) (id now : String)
    (title projectId : Option String) {id' : String} {p : SessionProjection}
    (hview : (store.transact
      (·.createSessionWithRetention id now title projectId .forever)).2.view id' = some p) :
    store.view id' = some p ∨ p.Settled := by
  unfold Store.transact at hview
  split at hview
  · next db hdb =>
    obtain ⟨-, -, hinsert⟩ := Except.bind_eq_ok.mp hdb
    obtain ⟨hnew, hrows⟩ := Except.ite_error_eq_ok.mp hinsert
    obtain ⟨s, hs, rfl⟩ := Except.map_eq_ok.mp hrows
    obtain ⟨-, hs⟩ := Except.ite_error_eq_ok.mp hs
    cases hs
    by_cases hid : id' = id
    · subst hid
      rw [Store.view] at hview
      split at hview
      · next q hcached =>
        -- nothing is cached of a session that does not exist
        obtain ⟨s, hs, -⟩ := h.cached hcached
        simp [SortedMap.contains, hs] at hnew
      · rw [SortedMap.get?_insert_self] at hview
        cases hview
        exact .inr ⟨fun _ => rfl, by simp [SessionProjection.new, SessionState.new]⟩
    · rw [Store.view] at hview ⊢
      simp only [SortedMap.get?_insert_of_ne _ _ hid] at hview
      exact .inl hview
  · exact .inl hview

/-- An operation other than an append shows what was shown, and new sessions with nothing open. -/
theorem World.handle_views (hw : w.Sound) {op : ServerOp}
    (hop : ∀ id events, op ≠ .store (.append id events)) :
    (∀ {id p}, w.view id = some p → (World.handle env op w).2.view id = some p) ∧
      ∀ {id p}, (World.handle env op w).2.view id = some p → w.view id = some p ∨ p.Settled := by
  refine ⟨World.handle_view env hw hop, fun {id p} hview => ?_⟩
  have hsame : (World.handle env op w).2.view id = w.view id → w.view id = some p ∨ p.Settled :=
    fun h => .inl (h.symm.trans hview)
  cases op with
  | publish record => exact hsame rfl
  | startWorker sessionId => exact hsame rfl
  | external op => exact hsame rfl
  | store op =>
    cases op with
    | append id events => exact absurd rfl (hop id events)
    | projection sessionId => exact hsame (Store.Sound.view_projection hw sessionId id)
    | createSession newId now title projectId =>
      refine Store.Sound.view_of_createSession hw newId now title projectId (Eq.trans ?_ hview)
      exact congrArg (Store.view · id) (perform_createSession ..).symm
    | createPermissionRule rule =>
      refine hsame (Store.view_congr ?_ ?_ id)
      · rw [World.handle, perform_createPermissionRule]
        exact (transact_createPermissionRule rule).1
      · rw [World.handle, perform_createPermissionRule]
        exact (transact_createPermissionRule rule).2
    | createAgentLink link =>
      exact hsame (Store.view_congr (transact_createAgentLink w.store link).1
        (transact_createAgentLink w.store link).2.1 id)
    | runningSessions => exact hsame rfl
    | sessionIds => exact hsame rfl
    | getSession sessionId => exact hsame rfl
    | getProject projectId => exact hsame rfl
    | matchingPermissionRule sessionId projectId agentId toolName => exact hsame rfl
    | agentLinks sessionId => exact hsame rfl

end Views

/-! ## How far the sweep has come -/

/-- The reason a shutdown gives. -/
def shutdownReason : String := "server_shutdown"

/-- What the sweep has done. -/
structure Sweep where
  /-- The sessions left to read, once they are listed. -/
  left : Option (List String) := none
  /-- The session that has been read and not been interrupted yet, with the events for it. -/
  pending : Option (String × List SemanticEvent) := none
  /-- The store has refused something. -/
  failed : Bool := false

namespace Sweep

/-- The operations of the sweep. -/
def allows (a : Sweep) : ServerOp → Prop
  | .store .sessionIds => a.left = none ∧ a.pending = none
  | .store (.projection id) => a.pending = none ∧ ∃ ids, a.left = some (id :: ids)
  | .store (.append id events) => a.pending = some (id, events)
  | .store _ => False
  | .publish _ | .startWorker _ | .external _ => True

/-- What the replies say about it. -/
def next (a : Sweep) : (op : ServerOp) → op.Reply → Sweep
  | .store .sessionIds, .ok ids => { a with left := some ids }
  | .store (.projection id), .ok p => {
      a with
      left := a.left.map List.tail
      pending := if p.interruptions shutdownReason = [] then none
        else some (id, p.interruptions shutdownReason) }
  | .store (.append _ _), .ok _ => { a with pending := none }
  | .store _, .error _ => { a with failed := true }
  | _, _ => a

/-- The sweep has been through all sessions. -/
def Done (a : Sweep) (x : Except StoreError Unit) : Prop :=
  a.failed = true ∨ x = .ok () ∧ a.left = some [] ∧ a.pending = none

theorem quiet : Quiet allows next where
  publish _ _ := ⟨trivial, rfl⟩
  worker _ _ := ⟨trivial, rfl⟩
  release _ _ := ⟨trivial, rfl⟩
  shutdown _ _ := ⟨trivial, rfl⟩

theorem interruptSessions_follows (ids : List String) (failed : Bool) :
    (interruptSessions shutdownReason ids).Follows allows next Done ⟨some ids, none, failed⟩ := by
  induction ids with
  | nil => exact .inr ⟨rfl, rfl, rfl⟩
  | cons id ids ih =>
    refine follows_onStore ⟨rfl, ids, rfl⟩ ?_ fun e => .inl rfl
    intro p
    have hnext : next ⟨some (id :: ids), none, failed⟩ (.store (.projection id)) (.ok p) =
        ⟨some ids, if p.interruptions shutdownReason = [] then none
          else some (id, p.interruptions shutdownReason), failed⟩ := rfl
    rw [hnext]
    by_cases hnone : p.interruptions shutdownReason = []
    · rw [if_pos hnone]
      dsimp only
      rw [if_pos hnone]
      exact ih
    · rw [if_neg hnone]
      dsimp only
      rw [if_neg hnone]
      refine Program.Follows.bind (Q := fun a x =>
        (∀ records, x = .ok records → a = ⟨some ids, none, failed⟩) ∧
          ∀ e, x = .error e → a.failed = true) (quiet.appendMany rfl ?_) ?_ ?_
      · intro r
        cases r with
        | ok records => exact ⟨fun _ _ => rfl, by simp⟩
        | error e => exact ⟨by simp, fun _ _ => rfl⟩
      · rintro a records ⟨hok, -⟩
        rw [hok records rfl]
        exact ih
      · rintro a e ⟨-, hfailed⟩
        exact .inl (hfailed e rfl)

theorem interruptRemainingRuns_follows :
    (interruptRemainingRuns shutdownReason).Follows allows next Done {} := by
  refine follows_onStore ⟨rfl, rfl⟩ ?_ fun e => .inl rfl
  intro ids
  exact interruptSessions_follows ids false

end Sweep

/-! ## Requests, workers and the shutdown -/

/-- The operations that are under way when the server is shut down. -/
inductive InFlight where
  | queueRun (sessionId : String) (request : RunRequest)
  | retry (sessionId runId : String)
  | resume (sessionId : String)
  | approve (sessionId runId requestId : String) (scope : PermissionScope)
  | deny (sessionId runId requestId : String)
  | worker (sessionId : String)

namespace InFlight

def program (fuel : Nat) : InFlight → ServerProgram Unit
  | .queueRun sessionId request => do
    let _ ← Piqo.queueRun sessionId request
    return ()
  | .retry sessionId runId => do
    let _ ← Piqo.retry sessionId runId
    return ()
  | .resume sessionId => Piqo.resume sessionId
  | .approve sessionId runId requestId scope =>
    resolvePermission fuel sessionId runId requestId .allow (some scope)
  | .deny sessionId runId requestId => resolvePermission fuel sessionId runId requestId .deny none
  | .worker sessionId => processSession fuel sessionId

def isWorker : InFlight → Bool
  | .worker _ => true
  | _ => false

end InFlight

structure ServerTask where
  program : ServerProgram Unit
  worker : Bool
  /-- The task is a worker that the shutdown waits for. -/
  taken : Bool := false

/-- Whether a program has come to its end. -/
def ServerTask.ended (task : ServerTask) : Bool :=
  match task.program with
  | .call _ _ => false
  | .ret _ | .fail _ => true

/-- How far the shutdown has come. -/
inductive ShutdownStage where
  | running
  /-- The token is cancelled. -/
  | cancelled
  /-- The set of workers is taken. -/
  | joining
  | sweeping (sweep : Sweep) (program : ServerProgram Unit)
  | returned (outcome : Except StoreError Unit)

structure ServerMachine where
  world : World
  stage : ShutdownStage := .running
  tasks : List ServerTask

inductive ServerAction where
  /-- A task takes its next operation. -/
  | advance (i : Nat)
  | cancelToken
  | takeWorkers
  /-- A worker that did not end in time is dropped. -/
  | abort (i : Nat)
  | beginSweep
  /-- The sweep takes its next operation, or the shutdown returns. -/
  | sweep

namespace ServerMachine

def tokenCancelled (m : ServerMachine) : Bool :=
  match m.stage with
  | .running => false
  | _ => true

/-- An operation of a task or of the sweep. -/
def perform (env : Surroundings) (fuel : Nat) (m : ServerMachine) :
    (op : ServerOp) → op.Reply × ServerMachine
  | .external .isShutdown => (m.tokenCancelled, { m with world := m.world.tick })
  | .startWorker sessionId =>
    ((), { m with
      world := (World.handle env (.startWorker sessionId) m.world).2
      tasks := m.tasks ++ [{ program := processSession fuel sessionId, worker := true }] })
  | op => ((World.handle env op m.world).1, { m with world := (World.handle env op m.world).2 })

def step (env : Surroundings) (fuel : Nat) (m : ServerMachine) : ServerAction → ServerMachine
  | .advance i => match m.tasks[i]? with
    | some ⟨.call op k, worker, taken⟩ =>
      let r := m.perform env fuel op
      { r.2 with tasks := r.2.tasks.set i ⟨k r.1, worker, taken⟩ }
    | _ => m
  | .cancelToken => match m.stage with
    | .running => { m with stage := .cancelled }
    | _ => m
  | .takeWorkers => match m.stage with
    | .cancelled =>
      { m with stage := .joining, tasks := m.tasks.map fun task => { task with taken := task.worker } }
    | _ => m
  | .abort i => match m.stage, m.tasks[i]? with
    | .joining, some ⟨_, worker, true⟩ => { m with tasks := m.tasks.set i ⟨.ret (), worker, true⟩ }
    | _, _ => m
  | .beginSweep => match m.stage with
    | .joining =>
      if m.tasks.all fun task => !task.taken || task.ended then
        { m with stage := .sweeping {} (interruptRemainingRuns shutdownReason) }
      else m
    | _ => m
  | .sweep => match m.stage with
    | .sweeping a (.call op k) =>
      let r := m.perform env fuel op
      { r.2 with stage := .sweeping (a.next op r.1) (k r.1) }
    | .sweeping _ (.ret ()) => { m with stage := .returned (.ok ()) }
    | .sweeping _ (.fail e) => { m with stage := .returned (.error e) }
    | _ => m

/-- A server with operations under way. -/
def start (fuel : Nat) (w : World) (operations : List InFlight) : ServerMachine where
  world := w
  tasks := operations.map fun operation =>
    { program := operation.program fuel, worker := operation.isWorker }

end ServerMachine

/-- What may be appended to a session behind the sweep: to a session that has been read and not been
interrupted nothing that opens or shuts; to one that has been swept, or is not listed, nothing that
opens. -/
def Sweep.Admits (a : Sweep) (sessionId : String) (events : List SemanticEvent) : Prop :=
  match a.left with
  | none => True
  | some ids =>
    if a.pending.map Prod.fst = some sessionId then
      ∀ e ∈ events, e.opens = false ∧ e.shuts = false
    else sessionId ∈ ids ∨ ∀ e ∈ events, e.opens = false

/-- No task opens work behind the sweep, or interferes between its look at a session and its
append. -/
def ServerMachine.BehindSweep (m : ServerMachine) : ServerAction → Prop
  | .advance i => ∀ sessionId events k worker taken,
      m.tasks[i]? = some ⟨.call (.store (.append sessionId events)) k, worker, taken⟩ →
        match m.stage with
        | .sweeping a _ => a.Admits sessionId events
        | .returned _ => ∀ e ∈ events, e.opens = false
        | _ => True
  | _ => True

/-! ## What the sweep has achieved -/

/-- What holds of the sessions while the sweep is under way. -/
structure Sweep.Holds (a : Sweep) (w : World) : Prop where
  succeeded : a.failed = false
  unlisted : a.left = none → a.pending = none
  present : ∀ {ids id}, a.left = some ids → id ∈ ids → ∃ p, w.view id = some p
  settled : ∀ {ids id p}, a.left = some ids → w.view id = some p →
    id ∈ ids ∨ a.pending.map Prod.fst = some id ∨ p.Settled
  pending : ∀ {id events}, a.pending = some (id, events) → ∃ p q : SessionProjection, p.WellKeyed ∧
    events = p.interruptions shutdownReason ∧ w.view id = some q ∧ p.SameOpen q

namespace Sweep

variable {a : Sweep} {w : World} (env : Surroundings)

/-- An operation other than an append. -/
theorem Holds.other (h : a.Holds w) (hw : w.Sound) {op : ServerOp}
    (hop : ∀ id events, op ≠ .store (.append id events)) :
    a.Holds (World.handle env op w).2 where
  succeeded := h.succeeded
  unlisted := h.unlisted
  present hleft hid := by
    obtain ⟨p, hp⟩ := h.present hleft hid
    exact ⟨p, (World.handle_views env hw hop).1 hp⟩
  settled hleft hview := by
    rcases (World.handle_views env hw hop).2 hview with hview | hsettled
    · exact h.settled hleft hview
    · exact .inr (.inr hsettled)
  pending hpending := by
    obtain ⟨p, q, hkeyed, hevents, hview, hsame⟩ := h.pending hpending
    exact ⟨p, q, hkeyed, hevents, (World.handle_views env hw hop).1 hview, hsame⟩

/-- An append of another task. -/
theorem Holds.append (h : a.Holds w) (hw : w.Sound) {sessionId : String}
    {events : List SemanticEvent} (hadmits : a.Admits sessionId events) :
    a.Holds (World.handle env (.store (.append sessionId events)) w).2 := by
  rcases World.handle_append_view env hw sessionId events with
    hsame | ⟨p, q, hview, happly, hview', hothers⟩
  · constructor
    · exact h.succeeded
    · exact h.unlisted
    · intro ids id hleft hid
      rw [hsame]
      exact h.present hleft hid
    · intro ids id p hleft hp
      rw [hsame] at hp
      exact h.settled hleft hp
    · intro id events hpending
      obtain ⟨p, q, hkeyed, hevents, hq, hopen⟩ := h.pending hpending
      exact ⟨p, q, hkeyed, hevents, (hsame id).trans hq, hopen⟩
  · constructor
    · exact h.succeeded
    · exact h.unlisted
    · intro ids id hleft hid
      by_cases heq : id = sessionId
      · exact ⟨q, heq ▸ hview'⟩
      · rw [hothers id heq]
        exact h.present hleft hid
    · intro ids id r hleft hr
      by_cases heq : id = sessionId
      · subst heq
        cases hview'.symm.trans hr
        rw [Admits, hleft] at hadmits
        by_cases hpending : a.pending.map Prod.fst = some id
        · exact .inr (.inl hpending)
        · simp only [if_neg hpending] at hadmits
          rcases hadmits with hmem | hevents
          · exact .inl hmem
          · rcases h.settled hleft hview with hmem | hpend | hsettled
            · exact .inl hmem
            · exact .inr (.inl hpend)
            · exact .inr (.inr (hsettled.applyAll hevents happly))
      · rw [hothers id heq] at hr
        exact h.settled hleft hr
    · intro id interruptions hpending
      obtain ⟨p₀, q₀, hkeyed, hevents, hq₀, hopen⟩ := h.pending hpending
      by_cases heq : id = sessionId
      · subst heq
        cases hview.symm.trans hq₀
        refine ⟨p₀, q, hkeyed, hevents, hview', hopen.trans (.applyAll ?_ happly)⟩
        cases hleft : a.left with
        | none =>
          rw [h.unlisted hleft] at hpending
          cases hpending
        | some ids =>
          rw [Admits, hleft, hpending] at hadmits
          simpa using hadmits
      · exact ⟨p₀, q₀, hkeyed, hevents, (hothers id heq).trans hq₀, hopen⟩

/-- The sweep lists the sessions. -/
theorem Holds.list (h : a.Holds w) (hw : w.Sound) (hpending : a.pending = none) :
    (a.next (.store .sessionIds) (World.handle env (.store .sessionIds) w).1).Holds
      (World.handle env (.store .sessionIds) w).2 where
  succeeded := h.succeeded
  unlisted := nofun
  present hleft hid := by
    cases hleft
    exact (mem_keys_of_view hw).mp hid
  settled hleft hview := by
    cases hleft
    exact .inl ((mem_keys_of_view hw).mpr ⟨_, hview⟩)
  pending hpending' := by
    change a.pending = some _ at hpending'
    rw [hpending] at hpending'
    cases hpending'

/-- The sweep reads a session. -/
theorem Holds.read (h : a.Holds w) (hw : w.Sound) {id : String} {ids : List String}
    (hleft : a.left = some (id :: ids)) (hpending : a.pending = none) :
    (a.next (.store (.projection id)) (World.handle env (.store (.projection id)) w).1).Holds
      (World.handle env (.store (.projection id)) w).2 := by
  obtain ⟨p, hp⟩ := h.present hleft List.mem_cons_self
  have hreply : (World.handle env (.store (.projection id)) w).1 = .ok p :=
    congrArg Prod.fst (Store.Sound.projection_view hw hp)
  have hviews : ∀ id', (World.handle env (.store (.projection id)) w).2.view id' = w.view id' :=
    fun id' => Store.Sound.view_projection hw id id'
  have hkeyed : p.WellKeyed := Store.Sound.wellKeyed_view hw hp
  rw [hreply]
  have hnext : a.next (.store (.projection id)) (.ok p) = ⟨some ids,
      if p.interruptions shutdownReason = [] then none
        else some (id, p.interruptions shutdownReason), a.failed⟩ := by
    rw [Sweep.next, hleft]
    rfl
  rw [hnext]
  constructor
  · exact h.succeeded
  · nofun
  · intro ids' id' heq hmem
    cases heq
    rw [hviews]
    exact h.present hleft (List.mem_cons_of_mem _ hmem)
  · intro ids' id' q heq hq
    cases heq
    rw [hviews] at hq
    rcases h.settled hleft hq with hmem | hpend | hsettled
    · rcases List.mem_cons.mp hmem with rfl | hmem
      · cases hp.symm.trans hq
        -- the session at hand: it waits for its interruptions, or needs none
        by_cases hnone : p.interruptions shutdownReason = []
        · exact .inr (.inr (SessionProjection.settled_of_interruptions hkeyed hnone))
        · refine .inr (.inl ?_)
          rw [if_neg hnone]
          rfl
      · exact .inl hmem
    · rw [hpending] at hpend
      cases hpend
    · exact .inr (.inr hsettled)
  · intro id' events heq
    obtain ⟨-, heq⟩ := Option.ite_none_left_eq_some.mp heq
    cases heq
    exact ⟨p, p, hkeyed, rfl, (hviews id).trans hp, .refl p⟩

/-- The sweep interrupts a session. -/
theorem Holds.interrupt (h : a.Holds w) (hw : w.Sound) {id : String} {events : List SemanticEvent}
    (hpending : a.pending = some (id, events)) :
    (a.next (.store (.append id events)) (World.handle env (.store (.append id events)) w).1).Holds
      (World.handle env (.store (.append id events)) w).2 := by
  obtain ⟨p, q, hkeyed, rfl, hq, hopen⟩ := h.pending hpending
  obtain ⟨r, happly, hsettled⟩ := SessionProjection.applyAll_interruptions hkeyed
    (Store.Sound.wellKeyed_view hw hq) hopen shutdownReason
  obtain ⟨records, store', happend, -, hview', htouches, -⟩ :=
    Store.Sound.appendEvents_ok hw hq (env.stamp w.clock id) happly
  have hreply : (World.handle env (.store (.append id (p.interruptions shutdownReason))) w).1 =
      .ok records := congrArg Prod.fst happend
  have hviews : ∀ id', (World.handle env (.store (.append id
      (p.interruptions shutdownReason))) w).2.view id' = store'.view id' := fun id' =>
    congrArg (fun r : Except StoreError (List RecordedEvent) × Store => r.2.view id') happend
  rw [hreply]
  have hnext : a.next (.store (.append id (p.interruptions shutdownReason))) (.ok records) =
      { a with pending := none } := rfl
  rw [hnext]
  constructor
  · exact h.succeeded
  · intro _
    rfl
  · intro ids id' hleft hmem
    rw [hviews]
    by_cases heq : id' = id
    · exact ⟨r, heq ▸ hview'⟩
    · rw [htouches.views id' heq]
      exact h.present hleft hmem
  · intro ids id' q' hleft hq'
    rw [hviews] at hq'
    by_cases heq : id' = id
    · subst heq
      cases hview'.symm.trans hq'
      exact .inr (.inr hsettled)
    · rw [htouches.views id' heq] at hq'
      rcases h.settled hleft hq' with hmem | hpend | hsettled'
      · exact .inl hmem
      · rw [hpending] at hpend
        cases hpend
        exact absurd rfl heq
      · exact .inr (.inr hsettled')
  · nofun

/-- **An operation of the sweep.** -/
theorem Holds.step (h : a.Holds w) (hw : w.Sound) {op : ServerOp} (hop : a.allows op) :
    (a.next op (World.handle env op w).1).Holds (World.handle env op w).2 := by
  cases op with
  | store op =>
    cases op with
    | sessionIds => exact h.list env hw hop.2
    | projection id =>
      obtain ⟨hpending, ids, hleft⟩ := hop
      exact h.read env hw hleft hpending
    | append id events => exact h.interrupt env hw hop
    | _ => exact hop.elim
  | publish record => exact h.other env hw nofun
  | startWorker id => exact h.other env hw nofun
  | external op => exact h.other env hw nofun

end Sweep

/-! ## The invariant -/

namespace ServerMachine

variable {env : Surroundings} {fuel : Nat} {m : ServerMachine}

theorem perform_world (env : Surroundings) (fuel : Nat) (m : ServerMachine) (op : ServerOp) :
    (m.perform env fuel op).2.world = (World.handle env op m.world).2 := by
  unfold perform
  split <;> rfl

theorem perform_stage (env : Surroundings) (fuel : Nat) (m : ServerMachine) (op : ServerOp) :
    (m.perform env fuel op).2.stage = m.stage := by
  unfold perform
  split <;> rfl

/-- The sweep does not ask for the token. -/
theorem next_perform (env : Surroundings) (fuel : Nat) (m : ServerMachine) (a : Sweep)
    (op : ServerOp) :
    a.next op (m.perform env fuel op).1 = a.next op (World.handle env op m.world).1 := by
  unfold perform
  split <;> rfl

/-- What holds of the sessions at each stage of the shutdown. -/
def StageHolds (w : World) : ShutdownStage → Prop
  | .sweeping a p => a.Holds w ∧ p.Follows Sweep.allows Sweep.next Sweep.Done a
  | .returned outcome => outcome = .ok () ∧ ∀ id p, w.view id = some p → p.Settled
  | _ => True

structure Invariant (m : ServerMachine) : Prop where
  sound : m.world.Sound
  stage : StageHolds m.world m.stage

/-- An operation of a task, which does not interfere with the sweep. -/
theorem Invariant.perform (h : m.Invariant) {op : ServerOp}
    (hop : ∀ sessionId events, op = .store (.append sessionId events) →
      match m.stage with
      | .sweeping a _ => a.Admits sessionId events
      | .returned _ => ∀ e ∈ events, e.opens = false
      | _ => True) :
    (m.perform env fuel op).2.Invariant := by
  obtain ⟨hsound, hstage⟩ := h
  refine ⟨?_, ?_⟩
  · rw [perform_world]
    exact World.handle_sound env hsound op
  · rw [perform_world, perform_stage]
    cases hcase : m.stage with
    | running => trivial
    | cancelled => trivial
    | joining => trivial
    | sweeping a p =>
      rw [hcase] at hstage hop
      refine ⟨?_, hstage.2⟩
      by_cases happend : ∃ id events, op = .store (.append id events)
      · obtain ⟨id, events, rfl⟩ := happend
        exact hstage.1.append env hsound (hop id events rfl)
      · exact hstage.1.other env hsound fun id events heq => happend ⟨id, events, heq⟩
    | returned outcome =>
      rw [hcase] at hstage hop
      refine ⟨hstage.1, ?_⟩
      intro id p hview
      by_cases happend : ∃ id events, op = .store (.append id events)
      · obtain ⟨id', events, rfl⟩ := happend
        rcases World.handle_append_view env hsound id' events with
          hsame | ⟨q, r, hq, happly, hr, hothers⟩
        · exact hstage.2 id p ((hsame id).symm.trans hview)
        · by_cases heq : id = id'
          · subst heq
            cases hr.symm.trans hview
            exact (hstage.2 id q hq).applyAll (hop id events rfl) happly
          · exact hstage.2 id p ((hothers id heq).symm.trans hview)
      · have hviews := (World.handle_views env hsound
          fun id events heq => happend ⟨id, events, heq⟩).2 hview
        rcases hviews with hview | hsettled
        · exact hstage.2 id p hview
        · exact hsettled

/-- **Every step that respects the sweep keeps the invariant.** -/
theorem Invariant.step (h : m.Invariant) {action : ServerAction} (haction : m.BehindSweep action) :
    (m.step env fuel action).Invariant := by
  cases action with
  | advance i =>
    simp only [ServerMachine.step]
    split
    · next op k worker taken htask =>
      have hnext : (m.perform env fuel op).2.Invariant := by
        refine h.perform ?_
        rintro sessionId events rfl
        exact haction sessionId events k worker taken htask
      exact ⟨hnext.sound, hnext.stage⟩
    · exact h
  | cancelToken =>
    simp only [ServerMachine.step]
    split
    · exact ⟨h.sound, trivial⟩
    · exact h
  | takeWorkers =>
    simp only [ServerMachine.step]
    split
    · exact ⟨h.sound, trivial⟩
    · exact h
  | abort i =>
    simp only [ServerMachine.step]
    split
    · exact ⟨h.sound, h.stage⟩
    · exact h
  | beginSweep =>
    simp only [ServerMachine.step]
    split
    · split
      · refine ⟨h.sound, ?_, Sweep.interruptRemainingRuns_follows⟩
        exact ⟨rfl, fun _ => rfl, nofun, nofun, nofun⟩
      · exact h
    · exact h
  | sweep =>
    have hstage := h.stage
    simp only [ServerMachine.step]
    split
    · next a op k hcase =>
      rw [hcase] at hstage
      obtain ⟨hholds, hallowed, hfollows⟩ := hstage
      refine ⟨?_, ?_, hfollows _⟩
      · rw [perform_world]
        exact World.handle_sound env h.sound op
      · rw [perform_world, next_perform]
        exact hholds.step env h.sound hallowed
    · next a hcase =>
      rw [hcase] at hstage
      obtain ⟨hholds, hdone⟩ := hstage
      refine ⟨h.sound, rfl, ?_⟩
      rcases hdone with hfailed | ⟨-, hleft, hpending⟩
      · rw [hholds.succeeded] at hfailed
        cases hfailed
      · intro id p hview
        rcases hholds.settled hleft hview with hmem | hpend | hsettled
        · cases hmem
        · rw [hpending] at hpend
          cases hpend
        · exact hsettled
    · next a e hcase =>
      rw [hcase] at hstage
      obtain ⟨hholds, hdone⟩ := hstage
      rcases hdone with hfailed | ⟨heq, -⟩
      · rw [hholds.succeeded] at hfailed
        cases hfailed
      · cases heq
    · exact h

end ServerMachine

/-- What a shutdown that has returned has returned. -/
def ShutdownStage.outcome? : ShutdownStage → Option (Except StoreError Unit)
  | .returned outcome => some outcome
  | _ => none

theorem ShutdownStage.outcome?_eq_some {stage : ShutdownStage} {outcome : Except StoreError Unit}
    (h : stage.outcome? = some outcome) : stage = .returned outcome := by
  cases stage with
  | returned outcome' =>
    cases h
    rfl
  | _ => cases h

/-- No task takes a step once the sweep has begun. -/
def ServerMachine.beforeSweep (m : ServerMachine) : ServerAction → Bool
  | .advance _ => match m.stage with
    | .sweeping _ _ | .returned _ => false
    | _ => true
  | _ => true

theorem ServerMachine.behindSweep_of_before {m : ServerMachine} {action : ServerAction}
    (h : m.beforeSweep action = true) : m.BehindSweep action := by
  cases action with
  | advance i =>
    intro sessionId events k worker taken _
    unfold beforeSweep at h
    cases hstage : m.stage <;> simp_all
  | _ => trivial

def hiRequest : RunRequest where
  provider := "local"
  model := "m"
  input := .str "hi"
  agent := none
  variant := none
  body := .obj []

/-- A server with one session, on which `queue_run` is under way. -/
def queuing (schedule : List ServerAction) : ServerMachine :=
  Schedule.run (ServerMachine.step (Surroundings.plain {}) 3)
    (ServerMachine.start 3 (World.holding []) [.queueRun "s" hiRequest]) schedule

/-- The request ends and its worker finds the token cancelled; the sweep interrupts the run. -/
def queuedFirst : List ServerAction :=
  List.replicate 10 (.advance 0) ++ [.cancelToken, .takeWorkers, .advance 1, .beginSweep] ++
    List.replicate 6 .sweep

/-- The request has passed its check, and appends when the shutdown has returned. -/
def queuedLast : List ServerAction :=
  List.replicate 6 (.advance 0) ++ [.cancelToken, .takeWorkers, .beginSweep, .sweep, .sweep, .sweep] ++
    List.replicate 4 (.advance 0)

/-- The statuses of the runs of the session. -/
def ServerMachine.statuses (m : ServerMachine) : Option (List RunStatus) :=
  (m.world.view "s").map fun p => p.runs.values.map (·.status)

end Piqo
