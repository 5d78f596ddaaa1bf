import PiqoServer.Core.Messages
import Mathlib.Logic.Relation
import Mathlib.Data.List.Nodup

/-!
# Histories

What holds of every projection a log leads to, and what a longer log cannot take back. A log is
a list of numbered events; the projection accepts it when it accepts the events one after the
other.

## Main definitions

* `SessionProjection.applyLog`: the projection after a log
* `InstanceChange`: the effect of one event on an agent instance
* `SessionProjection.Represented`: the representation invariant of a projection
* `RunStatus.Moves`: the moves of a run's status
* `SessionProjection.Keeps`: what a projection has decided stays decided in another one

## Main results

* `apply_instance`, `apply_facts`: what an event does to agent instances and durable facts
* `represented_of_applyLog`: the invariant holds after every log with increasing ids
* `apply_status`: one event moves the status of a run by one allowed move
* `decisions_writeOnce`: decisions are kept by every accepted continuation of a log
-/

namespace Piqo

namespace SessionProjection

variable {p q : SessionProjection} {eventId : Nat} {e : SemanticEvent}

/-- Apply numbered events one after the other. -/
def applyLog : SessionProjection → List (Nat × SemanticEvent) →
    Except ProjectionError SessionProjection
  | p, [] => .ok p
  | p, (eventId, event) :: log => (p.apply eventId event).bind fun p => p.applyLog log

theorem applyLog_cons_eq_ok {log : List (Nat × SemanticEvent)} :
    p.applyLog ((eventId, e) :: log) = .ok q ↔
      ∃ p', p.apply eventId e = .ok p' ∧ p'.applyLog log = .ok q := by
  rw [applyLog, Except.bind_eq_ok]

theorem applyLog_append_eq_ok {before after : List (Nat × SemanticEvent)} :
    p.applyLog (before ++ after) = .ok q ↔
      ∃ p', p.applyLog before = .ok p' ∧ p'.applyLog after = .ok q := by
  induction before generalizing p with
  | nil => simp [applyLog]
  | cons entry before ih =>
    obtain ⟨id, event⟩ := entry
    rw [List.cons_append, applyLog_cons_eq_ok]
    simp only [applyLog_cons_eq_ok, ih]
    constructor
    · rintro ⟨p₁, happly, p₂, hbefore, hafter⟩
      exact ⟨p₂, ⟨p₁, happly, hbefore⟩, hafter⟩
    · rintro ⟨p₂, ⟨p₁, happly, hbefore⟩, hafter⟩
      exact ⟨p₁, happly, p₂, hbefore, hafter⟩

/-- A property kept by every event is kept by every log. -/
theorem applyLog_preserves {I : SessionProjection → Prop}
    (hstep : ∀ {p q eventId e}, I p → p.apply eventId e = .ok q → I q)
    {log : List (Nat × SemanticEvent)} (hp : I p) (h : p.applyLog log = .ok q) : I q := by
  induction log generalizing p with
  | nil =>
    cases h
    exact hp
  | cons entry log ih =>
    obtain ⟨p', happly, hrest⟩ := applyLog_cons_eq_ok.mp h
    exact ih (hstep hp happly) hrest

/-! ## Agents -/

/-- The effect of an event on the agent instance `agentId` of the projection `p`. -/
inductive InstanceChange (p : SessionProjection) (e : SemanticEvent) (agentId : String) :
    Option AgentProjection → Option AgentProjection → Prop
  | same (inst) : InstanceChange p e agentId inst inst
  | spawned {parentId link configRevision} (before : Option AgentProjection)
      (he : e = .agentSpawned agentId parentId link configRevision)
      (hnew : p.agents.contains agentId = false) :
    InstanceChange p e agentId before
      (some { agentId, parentId, link, configRevision, context := [], result := none })
  | finished {result} (inst : AgentProjection) (he : e = .agentFinished agentId result)
      (hopen : inst.result = none) :
    InstanceChange p e agentId (some inst) (some { inst with result })
  | captured {references} (inst : AgentProjection)
      (he : e = .agentContextCaptured agentId references) (hopen : inst.context = []) :
    InstanceChange p e agentId (some inst) (some { inst with context := references })
  | delivered {parentRunId parentCallId result} (inst : AgentProjection)
      (he : e = .agentResultDelivered agentId parentRunId parentCallId result)
      (hopen : inst.result = none) :
    InstanceChange p e agentId (some inst) (some { inst with result := some result })

/-- The instance that an update rewrites changes as the update says, the others stay. -/
theorem InstanceChange.of_insert {agentId : String} {inst inst' : AgentProjection}
    (hinst : p.agentInstances.get? agentId = some inst)
    (hafter : q.agentInstances = p.agentInstances.insert agentId inst')
    (hchange : InstanceChange p e agentId (some inst) (some inst')) (id : String) :
    InstanceChange p e id (p.agentInstances.get? id) (q.agentInstances.get? id) := by
  rw [hafter]
  by_cases hid : id = agentId
  · subst hid
    rw [SortedMap.get?_insert_self, hinst]
    exact hchange
  · rw [SortedMap.get?_insert_of_ne _ _ hid]
    exact .same _

/-- Every accepted event changes an agent instance as `InstanceChange` says. -/
theorem apply_instance (h : p.apply eventId e = .ok q) (id : String) :
    InstanceChange p e id (p.agentInstances.get? id) (q.agentInstances.get? id) := by
  obtain ⟨state, -, hq⟩ := apply_eq_ok.mp h
  cases e <;>
    simp only [applyEvent, updateRun_eq_ok, updateInstance_eq_ok, setRunTerminal_eq_ok,
      Except.map_eq_ok, Except.bind_eq_ok, Except.ite_error_eq_ok, Except.ok.injEq,
      setQueuePaused] at hq
  case agentSpawned agentId parentId link configRevision =>
    obtain ⟨hnew, rfl⟩ := hq
    by_cases hid : id = agentId
    · subst hid
      rw [SortedMap.get?_insert_self]
      exact .spawned _ rfl (by simpa using hnew)
    · rw [SortedMap.get?_insert_of_ne _ _ hid]
      exact .same _
  case agentFinished agentId result =>
    obtain ⟨inst, inst', hinst, hresult, rfl⟩ := hq
    refine .of_insert hinst rfl ?_ id
    split at hresult
    · next hopen =>
      cases hresult
      exact .finished inst rfl hopen
    · cases (Except.ite_ok_eq_ok.mp hresult).2
      exact .same _
    · cases hresult
      exact .same _
  case agentContextCaptured agentId references =>
    obtain ⟨inst, inst', hinst, ⟨hcontext, rfl⟩, rfl⟩ := hq
    refine .of_insert hinst rfl ?_ id
    -- a context captured before is only accepted again when it is the same one
    by_cases hopen : inst.context = []
    · exact .captured inst rfl hopen
    · have hsame : inst.context = references := by
        by_contra hne
        exact hcontext ⟨hopen, hne⟩
      rw [← hsame]
      exact .same _
  case agentResultDelivered agentId parentRunId parentCallId result =>
    obtain ⟨inst, inst', hinst, hresult, rfl⟩ := hq
    refine .of_insert hinst rfl ?_ id
    split at hresult
    · next hopen =>
      cases hresult
      exact .delivered inst rfl hopen
    · cases (Except.ite_ok_eq_ok.mp hresult).2
      exact .same _
  case permissionResolved requestId decision _ _ _ _ =>
    split at hq
    · cases hq
    · split at hq
      · cases hq
        exact .same _
      · cases (Except.ite_ok_eq_ok.mp hq).2
        exact .same _
  case contextFactRecorded fact => split at hq <;> cases hq <;> exact .same _
  all_goals
    have hinstances : q.agentInstances = p.agentInstances := by grind
    rw [hinstances]
    exact .same _

/-- An agent the session knows stays known, and a spawned one becomes known. -/
theorem apply_agents (h : p.apply eventId e = .ok q) (id : String)
    (hknown : p.agents.contains id = true ∨
      ∃ parentId link configRevision, e = .agentSpawned id parentId link configRevision) :
    q.agents.contains id = true := by
  obtain ⟨state, -, hq⟩ := apply_eq_ok.mp h
  have hinsert : ∀ (m : SortedMap String AgentPhase) (agentId : String) (phase : AgentPhase),
      m.contains id = true ∨ id = agentId → (m.insert agentId phase).contains id = true := by
    intro m agentId phase hid
    rw [SortedMap.contains, SortedMap.get?_insert]
    split
    · rfl
    · next hne => exact hid.resolve_right hne
  cases e <;>
    simp only [applyEvent, updateRun_eq_ok, updateInstance_eq_ok, setRunTerminal_eq_ok,
      Except.map_eq_ok, Except.bind_eq_ok, Except.ite_error_eq_ok, Except.ok.injEq,
      setQueuePaused] at hq
  case agentSpawned agentId parentId link configRevision =>
    obtain ⟨-, rfl⟩ := hq
    refine hinsert _ _ _ (hknown.imp_right ?_)
    rintro ⟨_, _, _, heq⟩
    cases heq
    rfl
  case agentPhaseChanged agentId phase =>
    obtain rfl := hq
    exact hinsert _ _ _ (hknown.imp_right (by rintro ⟨_, _, _, heq⟩; cases heq))
  case agentFinished agentId result =>
    obtain ⟨inst, inst', -, -, rfl⟩ := hq
    exact hinsert _ _ _ (hknown.imp_right (by rintro ⟨_, _, _, heq⟩; cases heq))
  case permissionResolved requestId decision _ _ _ _ =>
    have hold := hknown.resolve_right (by rintro ⟨_, _, _, heq⟩; cases heq)
    split at hq
    · cases hq
    · split at hq
      · cases hq
        exact hold
      · cases (Except.ite_ok_eq_ok.mp hq).2
        exact hold
  case contextFactRecorded fact =>
    have hold := hknown.resolve_right (by rintro ⟨_, _, _, heq⟩; cases heq)
    split at hq <;> cases hq <;> exact hold
  all_goals
    have hold := hknown.resolve_right (by rintro ⟨_, _, _, heq⟩; cases heq)
    have hagents : q.agents = p.agents := by grind
    rw [hagents]
    exact hold

/-! ## Durable facts -/

/-- The durable facts stay, and a fact with a new id may join them. -/
theorem apply_facts (h : p.apply eventId e = .ok q) :
    q.context.durableFacts = p.context.durableFacts ∨
      ∃ fact, (∀ f ∈ p.context.durableFacts, f.factId ≠ fact.factId) ∧
        q.context.durableFacts = p.context.durableFacts ++ [fact] := by
  obtain ⟨state, -, hq⟩ := apply_eq_ok.mp h
  cases e <;>
    simp only [applyEvent, updateRun_eq_ok, updateInstance_eq_ok, setRunTerminal_eq_ok,
      Except.map_eq_ok, Except.bind_eq_ok, Except.ite_error_eq_ok, Except.ok.injEq,
      setQueuePaused] at hq
  case contextFactRecorded fact =>
    split at hq
    · cases hq
      exact .inl rfl
    · next hfresh =>
      cases hq
      exact .inr ⟨fact, by simpa using hfresh, rfl⟩
  case permissionResolved requestId decision _ _ _ _ =>
    split at hq
    · cases hq
    · split at hq
      · cases hq
        exact .inl rfl
      · cases (Except.ite_ok_eq_ok.mp hq).2
        exact .inl rfl
  all_goals exact .inl (by grind)

/-! ## The representation invariant -/

/-- What holds of the messages, agents, runs, calls and facts of every projection. -/
structure Represented (p : SessionProjection) : Prop where
  /-- Messages have ids of their own. -/
  messageIds : (p.messages.map (·.messageId)).Nodup
  /-- Messages stand in the order of their first events. -/
  opened : p.messages.Pairwise (·.firstEventId < ·.firstEventId)
  closedOnce : ∀ m ∈ p.messages, ¬(m.completed = true ∧ m.interrupted = true)
  positions : ∀ m ∈ p.messages, ∃ last, p.state.lastEventId = some last ∧
    m.firstEventId ≤ m.lastEventId ∧ m.lastEventId ≤ last
  /-- Runs, calls and permission requests are filed under their own ids. -/
  keyed : p.WellKeyed
  instanceKeyed : ∀ {agentId inst}, p.agentInstances.get? agentId = some inst →
    inst.agentId = agentId
  /-- Only a native call is executed by the server. -/
  executed : ∀ {runId callId call}, p.call? runId callId = some call →
    call.executionId.isSome = true → call.native = true
  used : ∀ {runId run}, p.runs.get? runId = some run → run.usage.isSome = true →
    run.status = .completed
  unstarted : ∀ {runId run}, p.runs.get? runId = some run → run.status = .queued →
    run.attempts = 0 ∧ run.attemptId = none
  instanceKnown : ∀ {agentId inst}, p.agentInstances.get? agentId = some inst →
    p.agents.contains agentId = true
  factIds : (p.context.durableFacts.map (·.factId)).Nodup

/-- The part of the invariant that does not depend on the ids of the events. -/
structure Distinct (p : SessionProjection) : Prop where
  messageIds : (p.messages.map (·.messageId)).Nodup
  instanceKnown : ∀ {agentId inst}, p.agentInstances.get? agentId = some inst →
    p.agents.contains agentId = true

theorem Distinct.new (sessionId : String) : (new sessionId).Distinct where
  messageIds := List.nodup_nil
  instanceKnown h := by simp [SessionProjection.new] at h

theorem Distinct.apply (hp : p.Distinct) (h : p.apply eventId e = .ok q) : q.Distinct where
  messageIds := (apply_messages h).nodup hp.messageIds
  instanceKnown := by
    intro agentId inst hinst
    have hchange := apply_instance h agentId
    rw [hinst] at hchange
    refine apply_agents h agentId ?_
    have hbefore : ∀ inst, p.agentInstances.get? agentId = some inst →
        p.agents.contains agentId = true := fun _ h => hp.instanceKnown h
    generalize p.agentInstances.get? agentId = before at hchange hbefore
    cases hchange with
    | spawned _ he => exact .inr ⟨_, _, _, he⟩
    | same => exact .inl (hbefore _ rfl)
    | finished inst => exact .inl (hbefore inst rfl)
    | captured inst => exact .inl (hbefore inst rfl)
    | delivered inst => exact .inl (hbefore inst rfl)

theorem Represented.distinct (hp : p.Represented) : p.Distinct :=
  ⟨hp.messageIds, hp.instanceKnown⟩

theorem Represented.new (sessionId : String) : (new sessionId).Represented where
  messageIds := List.nodup_nil
  opened := List.Pairwise.nil
  closedOnce := by simp [SessionProjection.new]
  positions := by simp [SessionProjection.new]
  keyed := WellKeyed.new sessionId
  instanceKeyed h := by simp [SessionProjection.new] at h
  executed h := by simp [SessionProjection.new, call?] at h
  used h := by simp [SessionProjection.new] at h
  unstarted h := by simp [SessionProjection.new] at h
  instanceKnown h := by simp [SessionProjection.new] at h
  factIds := List.nodup_nil

/-- A property of single runs is kept when every `RunChange` keeps it. -/
theorem apply_run_property {P : RunProjection → Prop} (h : p.apply eventId e = .ok q)
    (hqueued : ∀ {runId run}, RunChange e runId none run → P run)
    (hchanged : ∀ {runId run run'}, P run → RunChange e runId (some run) run' → P run')
    (hp : ∀ {runId run}, p.runs.get? runId = some run → P run) {runId : String}
    {run : RunProjection} (hrun : q.runs.get? runId = some run) : P run := by
  rcases apply_runs h with hruns | ⟨id, run', hruns, hchange⟩
  · exact hp (hruns ▸ hrun)
  · rw [hruns, SortedMap.get?_insert] at hrun
    split at hrun
    · obtain rfl := Option.some.inj hrun
      cases hbefore : p.runs.get? id with
      | none => exact hqueued (hbefore ▸ hchange)
      | some before => exact hchanged (hp hbefore) (hbefore ▸ hchange)
    · exact hp hrun

/-- A run with usage has completed. -/
theorem apply_used (h : p.apply eventId e = .ok q)
    (hp : ∀ {runId run}, p.runs.get? runId = some run → run.usage.isSome = true →
      run.status = .completed) {runId : String} {run : RunProjection}
    (hrun : q.runs.get? runId = some run) : run.usage.isSome = true → run.status = .completed := by
  refine apply_run_property (P := fun run => run.usage.isSome = true → run.status = .completed)
    h ?_ ?_ hp hrun
  · intro runId run hchange husage
    cases hchange
    cases husage
  · intro runId run run' hrun hchange husage
    -- a run with usage has ended, so no event moves its status
    cases hchange
    case completed => rfl
    all_goals
      have hcompleted := hrun husage
      simp_all [RunStatus.live]

theorem Represented.apply (hp : p.Represented)
    (hnew : ∀ last, p.state.lastEventId = some last → last < eventId)
    (h : p.apply eventId e = .ok q) : q.Represented where
  messageIds := (hp.distinct.apply h).messageIds
  opened := by
    refine ((apply_messages h).ordered hp.opened ?_).1
    intro m hm
    obtain ⟨last, hlast, hfirst, hle⟩ := hp.positions m hm
    exact ⟨hfirst, hle.trans_lt (hnew last hlast)⟩
  closedOnce := (apply_messages h).closedOnce hp.closedOnce
  positions := by
    intro m hm
    refine ⟨eventId, apply_lastEventId h, ((apply_messages h).ordered hp.opened ?_).2 m hm⟩
    intro m hm
    obtain ⟨last, hlast, hfirst, hle⟩ := hp.positions m hm
    exact ⟨hfirst, hle.trans_lt (hnew last hlast)⟩
  keyed := hp.keyed.apply h
  instanceKeyed := by
    intro agentId inst hinst
    have hbefore : ∀ inst, p.agentInstances.get? agentId = some inst → inst.agentId = agentId :=
      fun _ h => hp.instanceKeyed h
    have hchange := apply_instance h agentId
    rw [hinst] at hchange
    generalize p.agentInstances.get? agentId = before at hchange hbefore
    cases hchange
    case spawned => rfl
    all_goals
      have hkey := hbefore _ rfl
      exact hkey
  executed := by
    intro runId callId call hcall hexecuted
    have hbefore : ∀ call, p.call? runId callId = some call →
        call.executionId.isSome = true → call.native = true := fun _ h => hp.executed h
    have hchange := apply_call h runId callId
    rw [hcall] at hchange
    generalize p.call? runId callId = before at hchange hbefore
    cases hchange with
    | same => exact hbefore _ rfl hexecuted
    | emitted => cases hexecuted
    | claimed call he hnative hfree => exact hnative
    | answered call he hopen => exact hbefore call rfl hexecuted
  used := apply_used h hp.used
  unstarted := by
    refine apply_run_property (P := fun run => run.status = .queued →
      run.attempts = 0 ∧ run.attemptId = none) h ?_ ?_ hp.unstarted
    · intro runId run hchange hqueued
      cases hchange
      exact ⟨rfl, rfl⟩
    · intro runId run run' hrun hchange hqueued
      cases hchange <;> simp_all
  instanceKnown := (hp.distinct.apply h).instanceKnown
  factIds := by
    rcases apply_facts h with hfacts | ⟨fact, hfresh, hfacts⟩
    · rw [hfacts]
      exact hp.factIds
    · rw [hfacts, List.map_append, List.map_singleton, List.nodup_append]
      refine ⟨hp.factIds, by simp, ?_⟩
      intro id hid id' hid'
      obtain ⟨f, hf, rfl⟩ := List.mem_map.mp hid
      rw [List.mem_singleton.mp hid']
      exact hfresh f hf

theorem Represented.applyLog {log : List (Nat × SemanticEvent)} (hp : p.Represented)
    (hincreasing : log.Pairwise (·.1 < ·.1))
    (hnew : ∀ entry ∈ log, ∀ last, p.state.lastEventId = some last → last < entry.1)
    (h : p.applyLog log = .ok q) : q.Represented := by
  induction log generalizing p with
  | nil =>
    cases h
    exact hp
  | cons entry log ih =>
    obtain ⟨p', happly, hrest⟩ := applyLog_cons_eq_ok.mp h
    obtain ⟨hbelow, hincreasing⟩ := List.pairwise_cons.mp hincreasing
    refine ih (hp.apply (hnew entry List.mem_cons_self) happly) hincreasing ?_ hrest
    intro later hlater last hlast
    rw [apply_lastEventId happly] at hlast
    obtain rfl := Option.some.inj hlast
    exact hbelow later hlater

/-- **The representation invariant** holds after every accepted log with increasing ids. -/
theorem represented_of_applyLog (sessionId : String) (log : List (Nat × SemanticEvent))
    (p : SessionProjection) (hincreasing : log.Pairwise (·.1 < ·.1))
    (h : (SessionProjection.new sessionId).applyLog log = .ok p) : p.Represented := by
  refine (Represented.new sessionId).applyLog hincreasing ?_ h
  intro entry hentry last hlast
  cases hlast

/-- A session with a run, a message and an agent. -/
def briefLog : List (Nat × SemanticEvent) :=
  [(1, .sessionCreated none),
    (2, .runQueued "r" none "p" "m" .null),
    (3, .runStarted "r" "a" 1),
    (5, .messageStarted "m" "" .user .user),
    (6, .messageCompleted "m"),
    (8, .agentSpawned "agent" none none none)]

theorem represented_briefLog : ∃ p, (SessionProjection.new "s").applyLog briefLog = .ok p ∧
    p.Represented :=
  ⟨_, rfl, represented_of_applyLog "s" briefLog _ (by decide) rfl⟩

/-! ## Decisions are kept -/

end SessionProjection

/-- The moves of a run's status. -/
inductive RunStatus.Moves : RunStatus → RunStatus → Prop
  | start : Moves .queued .running
  | pause : Moves .running .requiresAction
  | resume : Moves .requiresAction .running
  | finish {before after : RunStatus} (hbefore : before.live = true) (hafter : after.live = false) :
    Moves before after

theorem RunStatus.Moves.live {before after : RunStatus} (h : before.Moves after) :
    before.live = true := by
  cases h with
  | finish hbefore hafter => exact hbefore
  | start => rfl
  | pause => rfl
  | resume => rfl

namespace SessionProjection

variable {p q : SessionProjection} {eventId : Nat} {e : SemanticEvent}

/-- What `p` has decided stays decided in `q`. -/
structure Keeps (p q : SessionProjection) : Prop where
  call : ∀ {runId callId call}, p.call? runId callId = some call →
    ∃ call', q.call? runId callId = some call' ∧
      (∀ result, call.result = some result → call'.result = some result) ∧
      ∀ executionId, call.executionId = some executionId → call'.executionId = some executionId
  permission : ∀ {requestId request}, p.pendingPermissions.get? requestId = some request →
    ∃ request', q.pendingPermissions.get? requestId = some request' ∧
      ∀ decision, request.decision = some decision → request'.decision = some decision
  agent : ∀ {agentId inst}, p.agentInstances.get? agentId = some inst →
    ∃ inst', q.agentInstances.get? agentId = some inst' ∧
      (∀ result, inst.result = some result → inst'.result = some result) ∧
      (inst.context ≠ [] → inst'.context = inst.context)
  /-- A closed message is the one message of its id, as it is. -/
  message : ∀ m ∈ p.messages, m.closed = true →
    m ∈ q.messages ∧ ∀ m' ∈ q.messages, m'.messageId = m.messageId → m' = m
  run : ∀ {runId run}, p.runs.get? runId = some run →
    ∃ run', q.runs.get? runId = some run' ∧ run'.request = run.request ∧
      run'.provider = run.provider ∧ run'.model = run.model ∧ run'.retryOf = run.retryOf ∧
      Relation.ReflTransGen RunStatus.Moves run.status run'.status ∧
      (run.status.live = false → run'.status = run.status)

/-- One event moves the status of a run by at most one allowed move; a new run is queued. -/
theorem apply_status (h : p.apply eventId e = .ok q) {runId : String} {run' : RunProjection}
    (hrun' : q.runs.get? runId = some run') :
    (p.runs.get? runId = none ∧ run'.status = .queued) ∨
      ∃ run, p.runs.get? runId = some run ∧
        (run'.status = run.status ∨ run.status.Moves run'.status) := by
  rcases apply_runs h with hruns | ⟨id, changed, hruns, hchange⟩
  · exact .inr ⟨run', hruns ▸ hrun', .inl rfl⟩
  · rw [hruns, SortedMap.get?_insert] at hrun'
    split at hrun'
    · next hid =>
      subst hid
      obtain rfl := Option.some.inj hrun'
      generalize p.runs.get? runId = before at hchange
      cases hchange with
      | queued => exact .inl ⟨rfl, rfl⟩
      | started run he hstatus =>
        refine .inr ⟨run, rfl, .inr ?_⟩
        rcases hstatus with hstatus | hstatus
        · rw [hstatus]
          exact .start
        · rw [hstatus]
          exact .resume
      | paused run he hstatus =>
        refine .inr ⟨run, rfl, .inr ?_⟩
        rw [hstatus]
        exact .pause
      | completed run he hlive => exact .inr ⟨run, rfl, .inr (.finish hlive rfl)⟩
      | failed run he hlive => exact .inr ⟨run, rfl, .inr (.finish hlive rfl)⟩
      | cancelled run he hlive => exact .inr ⟨run, rfl, .inr (.finish hlive rfl)⟩
      | interrupted run he hlive => exact .inr ⟨run, rfl, .inr (.finish hlive rfl)⟩
      | attempted run => exact .inr ⟨run, rfl, .inl rfl⟩
      | attemptFailed run => exact .inr ⟨run, rfl, .inl rfl⟩
      | emitted run => exact .inr ⟨run, rfl, .inl rfl⟩
      | claimed run => exact .inr ⟨run, rfl, .inl rfl⟩
      | answered run => exact .inr ⟨run, rfl, .inl rfl⟩
    · exact .inr ⟨run', hrun', .inl rfl⟩

/-- A run stays in the session with its request, provider, model and origin. -/
theorem apply_run_keeps (h : p.apply eventId e = .ok q) {runId : String} {run : RunProjection}
    (hrun : p.runs.get? runId = some run) :
    ∃ run', q.runs.get? runId = some run' ∧ run'.request = run.request ∧
      run'.provider = run.provider ∧ run'.model = run.model ∧ run'.retryOf = run.retryOf := by
  rcases apply_runs h with hruns | ⟨id, run', hruns, hchange⟩
  · exact ⟨run, hruns ▸ hrun, rfl, rfl, rfl, rfl⟩
  · by_cases hid : runId = id
    · subst hid
      refine ⟨run', by rw [hruns, SortedMap.get?_insert_self], ?_⟩
      rw [hrun] at hchange
      cases hchange <;> exact ⟨rfl, rfl, rfl, rfl⟩
    · exact ⟨run, by rw [hruns, SortedMap.get?_insert_of_ne _ _ hid, hrun], rfl, rfl, rfl, rfl⟩

theorem eq_of_nodup_ids {messages : List MessageProjection}
    (hnodup : (messages.map (·.messageId)).Nodup) {m m' : MessageProjection}
    (hm : m ∈ messages) (hm' : m' ∈ messages) (hid : m'.messageId = m.messageId) : m' = m :=
  List.inj_on_of_nodup_map hnodup hm' hm hid

theorem Keeps.refl (hnodup : (p.messages.map (·.messageId)).Nodup) : p.Keeps p where
  call {_ _ call} h := ⟨call, h, fun _ h => h, fun _ h => h⟩
  permission {_ request} h := ⟨request, h, fun _ h => h⟩
  agent {_ inst} h := ⟨inst, h, fun _ h => h, fun _ => rfl⟩
  message _ hm _ := ⟨hm, fun _ hm' hid => eq_of_nodup_ids hnodup hm hm' hid⟩
  run {_ run} h := ⟨run, h, rfl, rfl, rfl, rfl, .refl, fun _ => rfl⟩

theorem Keeps.trans {r : SessionProjection} (hpq : p.Keeps q) (hqr : q.Keeps r) : p.Keeps r where
  call h := by
    obtain ⟨call₁, h₁, hresult₁, hexecution₁⟩ := hpq.call h
    obtain ⟨call₂, h₂, hresult₂, hexecution₂⟩ := hqr.call h₁
    exact ⟨call₂, h₂, fun _ h => hresult₂ _ (hresult₁ _ h),
      fun _ h => hexecution₂ _ (hexecution₁ _ h)⟩
  permission h := by
    obtain ⟨request₁, h₁, hdecision₁⟩ := hpq.permission h
    obtain ⟨request₂, h₂, hdecision₂⟩ := hqr.permission h₁
    exact ⟨request₂, h₂, fun _ h => hdecision₂ _ (hdecision₁ _ h)⟩
  agent h := by
    obtain ⟨inst₁, h₁, hresult₁, hcontext₁⟩ := hpq.agent h
    obtain ⟨inst₂, h₂, hresult₂, hcontext₂⟩ := hqr.agent h₁
    refine ⟨inst₂, h₂, fun _ h => hresult₂ _ (hresult₁ _ h), ?_⟩
    intro hne
    have hsame := hcontext₁ hne
    rw [← hsame] at hne ⊢
    exact hcontext₂ hne
  message m hm hclosed := hqr.message m (hpq.message m hm hclosed).1 hclosed
  run h := by
    obtain ⟨run₁, h₁, hrequest₁, hprovider₁, hmodel₁, hretry₁, hmoves₁, hended₁⟩ := hpq.run h
    obtain ⟨run₂, h₂, hrequest₂, hprovider₂, hmodel₂, hretry₂, hmoves₂, hended₂⟩ := hqr.run h₁
    refine ⟨run₂, h₂, hrequest₂.trans hrequest₁, hprovider₂.trans hprovider₁,
      hmodel₂.trans hmodel₁, hretry₂.trans hretry₁, hmoves₁.trans hmoves₂, ?_⟩
    intro hended
    have hsame := hended₁ hended
    rw [← hsame] at hended ⊢
    exact hended₂ hended

/-- One event takes no decision back. -/
theorem Keeps.apply (hp : p.Distinct) (h : p.apply eventId e = .ok q) : p.Keeps q where
  call := by
    intro runId callId call hcall
    have hchange := apply_call h runId callId
    rw [hcall] at hchange
    generalize q.call? runId callId = after at hchange
    cases hchange with
    | same => exact ⟨call, rfl, fun _ h => h, fun _ h => h⟩
    | claimed call he hnative hfree => exact ⟨_, rfl, fun _ h => h, by simp [hfree]⟩
    | answered call he hopen => exact ⟨_, rfl, by simp [hopen], fun _ h => h⟩
  permission := by
    intro requestId request hrequest
    have hchange := apply_permission h requestId
    rw [hrequest] at hchange
    generalize q.pendingPermissions.get? requestId = after at hchange
    cases hchange with
    | same => exact ⟨request, rfl, fun _ h => h⟩
    | resolved request he hopen => exact ⟨_, rfl, by simp [hopen]⟩
  agent := by
    intro agentId inst hinst
    have hchange := apply_instance h agentId
    have hagent := hp.instanceKnown hinst
    rw [hinst] at hchange
    generalize q.agentInstances.get? agentId = after at hchange
    cases hchange with
    | same => exact ⟨inst, rfl, fun _ h => h, fun _ => rfl⟩
    | spawned before he hnew =>
      -- an instance is only spawned for an agent the session does not know
      rw [hagent] at hnew
      cases hnew
    | finished inst he hopen => exact ⟨_, rfl, by simp [hopen], fun _ => rfl⟩
    | captured inst he hopen => exact ⟨_, rfl, fun _ h => h, fun hne => absurd hopen hne⟩
    | delivered inst he hopen => exact ⟨_, rfl, by simp [hopen], fun _ => rfl⟩
  message := by
    intro m hm hclosed
    have hmem := apply_closed_mem h hm hclosed
    refine ⟨hmem, ?_⟩
    intro m' hm' hid
    exact eq_of_nodup_ids (hp.apply h).messageIds hmem hm' hid
  run := by
    intro runId run hrun
    obtain ⟨run', hrun', hrequest, hprovider, hmodel, hretry⟩ := apply_run_keeps h hrun
    refine ⟨run', hrun', hrequest, hprovider, hmodel, hretry, ?_⟩
    rcases apply_status h hrun' with ⟨hnone, -⟩ | ⟨before, hbefore, hmove⟩
    · rw [hrun] at hnone
      cases hnone
    · rw [hrun] at hbefore
      obtain rfl := Option.some.inj hbefore
      rcases hmove with hsame | hmove
      · rw [hsame]
        exact ⟨.refl, fun _ => rfl⟩
      · refine ⟨.single hmove, ?_⟩
        intro hended
        rw [hmove.live] at hended
        cases hended

theorem Keeps.applyLog {log : List (Nat × SemanticEvent)} (hp : p.Distinct)
    (h : p.applyLog log = .ok q) : p.Keeps q := by
  induction log generalizing p with
  | nil =>
    cases h
    exact Keeps.refl hp.messageIds
  | cons entry log ih =>
    obtain ⟨p', happly, hrest⟩ := applyLog_cons_eq_ok.mp h
    exact (Keeps.apply hp happly).trans (ih (hp.apply happly) hrest)

/-- **Decisions are write-once.** After every accepted log, each further event moves the status
of a run by at most one allowed move, and every accepted continuation keeps what is decided. -/
theorem decisions_writeOnce (sessionId : String) (log : List (Nat × SemanticEvent))
    (p : SessionProjection) (h : (SessionProjection.new sessionId).applyLog log = .ok p) :
    (∀ eventId e q, p.apply eventId e = .ok q → ∀ runId run', q.runs.get? runId = some run' →
      (p.runs.get? runId = none ∧ run'.status = .queued) ∨
        ∃ run, p.runs.get? runId = some run ∧
          (run'.status = run.status ∨ run.status.Moves run'.status)) ∧
    ∀ more q, p.applyLog more = .ok q → p.Keeps q := by
  have hp : p.Distinct :=
    applyLog_preserves (fun hp h => Distinct.apply hp h) (Distinct.new sessionId) h
  refine ⟨?_, fun more q hmore => Keeps.applyLog hp hmore⟩
  intro eventId e q happly runId run' hrun'
  exact apply_status happly hrun'

theorem decisions_briefLog : ∃ p q, (SessionProjection.new "s").applyLog briefLog = .ok p ∧
    p.applyLog [(9, .runCompleted "r" none)] = .ok q ∧ p.Keeps q :=
  ⟨_, _, rfl, rfl, (decisions_writeOnce "s" briefLog _ rfl).2 [(9, .runCompleted "r" none)] _ rfl⟩

end SessionProjection

end Piqo
