import PiqoServer.Storage.Interleaving

/-!
# The projection cache under concurrent calls

`append_events` clones the cached projection before its transaction begins and writes the cache
after it has committed; nothing connects the two. A call whose clone has been overtaken commits
the phase and revision of a stale projection, a late write of the cache hides newer events, and a
call that is dropped after its commit never writes the cache.

Each of these is a condition on one step in the state before it. In a run that avoids them the
store is coherent whenever no call is in flight.

## Main definitions

* `Machine.Disciplined`: the steps that neither commit, write nor drop out of turn
* `Machine.CoherentAtRest`: log, row and cache agree once no call is in flight

## Main results

* `run_coherentAtRest`: disciplined runs keep log, row and cache in agreement
* `staleClone_incoherent`: two appends, one of them from a stale clone, break the row
-/

namespace Piqo

/-- What opening the store checks is coherence. -/
theorem StoredSession.exists_coherent {s : StoredSession} {sessionId : String}
    (h : Database.validateSession sessionId s = .ok ()) : ∃ p, s.Coherent sessionId p := by
  obtain ⟨p, hp, hcheck⟩ := Except.bind_eq_ok.mp h
  have hrow := (Except.ite_ok_eq_ok.mp hcheck).1
  simp only [Database.matchesRow, Bool.and_eq_true, decide_eq_true_eq] at hrow
  obtain ⟨⟨hphase, hrevision⟩, hlast⟩ := hrow
  have hlength := project_lastEventId (StoredSession.projected_eq_ok.mp hp).2
  refine ⟨p, hp, hphase.symm, hrevision.symm, ?_⟩
  rw [hlength, Option.getD_some] at hlast
  rw [hlength, hlast]

namespace Machine

variable {S : Signature} {sessionId : String} {env : Environment S}

/-- Task `j` has committed the last event and not yet written the cache. -/
def Writer (m : Machine S) (j : Nat) : Prop :=
  ∃ task p records, m.tasks[j]? = some task ∧ task.phase = .committed p records ∧
    m.session.Current p

/-- The cache is empty or has seen the last event. -/
def FreshCache (m : Machine S) : Prop := ∀ p, m.cache = some p → m.session.Current p

/-- A write of the cache is of the last event, or comes before the write of the call that
committed the last event. -/
def FreshWrite (m : Machine S) : Action S → Prop
  | .advance i => ∀ task p, m.tasks[i]? = some task →
      ((∃ records, task.phase = .committed p records) ∨ task.phase = .loaded p) →
        m.session.Current p ∨ ∃ j, j ≠ i ∧ m.Writer j
  | _ => True

/-- The call that committed the last event is not dropped over a stale cache. -/
def SafeDrop (m : Machine S) : Action S → Prop
  | .drop i => m.Writer i → m.FreshCache
  | _ => True

/-- Stored events read back as they were appended: no optional JSON value is a present `null`. -/
def PlainEvents (m : Machine S) : Action S → Prop
  | .advance i => ∀ task events k cached, m.tasks[i]? = some task →
      task.program = .call (.append events) k → task.phase = .cloned cached →
        ∀ e ∈ events, e.reload = e
  | _ => True

/-- The steps that neither commit, write nor drop out of turn. -/
structure Disciplined (m : Machine S) (a : Action S) : Prop where
  clone : m.FreshClone a
  write : m.FreshWrite a
  drop : m.SafeDrop a
  plain : m.PlainEvents a

/-- Once no call is in flight the log replays, the row holds what the next start will ask for,
and the cache, if it holds anything, holds the projection of the log. -/
def CoherentAtRest (sessionId : String) (m : Machine S) : Prop :=
  m.Quiescent → ∃ p, m.session.projected sessionId = .ok p ∧
    Database.matchesRow m.session.summary p = true ∧ ∀ q, m.cache = some q → q = p

/-! ## The invariant -/

/-- On top of `Replayable`: projections in memory are unaffected by reloading, and a stale cache
is about to be overwritten. -/
structure Settled (sessionId : String) (m : Machine S) : Prop where
  replayable : m.Replayable sessionId
  plainCache : ∀ p, m.cache = some p → p.reload = p
  plainHeld : ∀ task ∈ m.tasks, ∀ p, task.phase.held = some p → p.reload = p
  fresh : m.FreshCache ∨ ∃ j, m.Writer j

theorem Settled.coherentAtRest {m : Machine S} (h : m.Settled sessionId) :
    m.CoherentAtRest sessionId := by
  intro hquiet
  obtain ⟨p, hp⟩ := h.replayable.coherent
  have hfresh : m.FreshCache := by
    refine h.fresh.resolve_right ?_
    rintro ⟨j, task, q, records, htask, hphase, -⟩
    have hidle := hquiet task (List.mem_of_getElem? htask)
    rw [hphase] at hidle
    cases hidle
  refine ⟨p, hp.projected, ?_, fun q hq => ?_⟩
  · simp [Database.matchesRow, hp.phase, hp.revision, hp.lastEventId]
  · rw [← h.plainCache q hq]
    exact hp.eq_of_current (h.replayable.cached q hq) (hfresh q hq)

/-- Appending plain events from a plain projection leaves a plain projection. -/
theorem appendAll_reload {s s' : StoredSession} {now : Nat → String} {p q : SessionProjection}
    {events : List SemanticEvent} {records : List RecordedEvent} (hdense : s.Dense)
    (hp : p.reload = p) (hevents : ∀ e ∈ events, e.reload = e)
    (h : StoredSession.appendAll sessionId now s p events = .ok (s', q, records)) :
    q.reload = q := by
  induction events generalizing s p records with
  | nil =>
    simp only [StoredSession.appendAll, Except.ok.injEq, Prod.mk.injEq] at h
    exact h.2.1 ▸ hp
  | cons event events ih =>
    obtain ⟨s₁, p₁, record, records', hone, hall, -⟩ := StoredSession.appendAll_cons_eq_ok.mp h
    obtain ⟨hdense', happly, -⟩ := hdense.appendOne hone
    have hhead := hevents event List.mem_cons_self
    refine ih hdense' (SessionProjection.apply_reload_eq hp hhead happly) (fun e he => ?_) hall
    exact hevents e (List.mem_cons_of_mem _ he)

theorem Writer.set_ne {m : Machine S} {i j : Nat} (h : m.Writer j) (hne : j ≠ i) {task : Task S}
    {cache : Option SessionProjection} {clock : Nat} {history : List (Nat × Label S)} :
    Writer { session := m.session, cache, tasks := m.tasks.set i task, clock, history } j := by
  obtain ⟨task', p, records, htask', hphase, hcurrent⟩ := h
  refine ⟨task', p, records, ?_, hphase, hcurrent⟩
  rw [List.getElem?_set_ne (Ne.symm hne)]
  exact htask'

/-- A step that is neither a commit nor a write leaves the cache as fresh as it was. -/
theorem fresh_of_set {m : Machine S} {i : Nat} {task task' : Task S} {clock : Nat}
    {history : List (Nat × Label S)} (h : m.FreshCache ∨ ∃ j, m.Writer j)
    (htask : m.tasks[i]? = some task) (hphase : ∀ p records, task.phase ≠ .committed p records) :
    FreshCache { session := m.session, cache := m.cache, tasks := m.tasks.set i task', clock
                 history } ∨
      ∃ j, Writer { session := m.session, cache := m.cache, tasks := m.tasks.set i task', clock
                    history } j := by
  refine h.imp id ?_
  rintro ⟨j, hj⟩
  refine ⟨j, hj.set_ne ?_⟩
  rintro rfl
  obtain ⟨task₁, p, records, htask₁, hcommitted, -⟩ := hj
  cases htask.symm.trans htask₁
  exact hphase p records hcommitted

theorem Settled.advance {m : Machine S} (h : m.Settled sessionId) {i : Nat}
    (ha : m.Disciplined (.advance i)) :
    (m.step sessionId env (.advance i)).Settled sessionId := by
  have hreplayable : (m.step sessionId env (.advance i)).Replayable sessionId :=
    h.replayable.step ha.clone
  simp only [Machine.step, act, Machine.advance] at hreplayable ⊢
  cases htask : m.tasks[i]? with
  | none => exact ⟨by simpa only [htask] using hreplayable, h.plainCache, h.plainHeld, h.fresh⟩
  | some task =>
    simp only [htask] at hreplayable ⊢
    have hmem : task ∈ m.tasks := List.mem_of_getElem? htask
    have hplain := h.plainHeld task hmem
    have hset : ∀ {task'}, (∀ p, task'.phase.held = some p → p.reload = p) →
        ∀ t ∈ m.tasks.set i task', ∀ p, t.phase.held = some p → p.reload = p := by
      intro task' hnew t ht
      rcases List.mem_or_eq_of_mem_set ht with ht | rfl
      · exact h.plainHeld t ht
      · exact hnew
    have hsteps := Task.step_steps sessionId (env.now m.clock) (env.answer m.clock) m.session
      m.cache task
    generalize task.step sessionId (env.now m.clock) (env.answer m.clock) m.session m.cache = r
      at hsteps hreplayable ⊢
    cases hsteps with
    | commit events k cached session' q records happend =>
      obtain ⟨base, hbase, hcoh, hall, hnew⟩ := h.replayable.commit
        (fun p hp => h.replayable.held _ hmem p hp)
        (fun p hp => ha.clone _ htask p (hp ▸ rfl)) happend
      have hbase : base.reload = base := by
        cases cached with
        | none =>
          obtain ⟨P, hP⟩ := h.replayable.coherent
          cases hP.projected.symm.trans hbase
          exact hP.reload_eq
        | some p =>
          cases hbase
          exact hplain _ rfl
      refine ⟨hreplayable, h.plainCache, hset fun p hp => ?_, .inr ⟨i, ?_⟩⟩
      · cases hp
        exact appendAll_reload hcoh.dense hbase (ha.plain _ events k cached htask rfl rfl) hall
      · refine ⟨⟨.call (.append events) k, .committed q records⟩, q, records, ?_, rfl, ?_⟩
        · exact List.getElem?_set_self (List.getElem?_eq_some_iff.mp htask).1
        · exact hnew.lastEventId
    | writeCommitted events k p records =>
      refine ⟨hreplayable, fun q hq => ?_, hset (by rintro q ⟨⟩), ?_⟩
      · cases hq
        exact hplain _ rfl
      · rcases ha.write _ p htask (.inl ⟨records, rfl⟩) with hcurrent | ⟨j, hne, hj⟩
        · exact .inl fun q hq => Option.some.inj hq ▸ hcurrent
        · exact .inr ⟨j, hj.set_ne hne⟩
    | writeLoaded k p =>
      refine ⟨hreplayable, fun q hq => ?_, hset (by rintro q ⟨⟩), ?_⟩
      · cases hq
        exact hplain _ rfl
      · rcases ha.write _ p htask (.inr rfl) with hcurrent | ⟨j, hne, hj⟩
        · exact .inl fun q hq => Option.some.inj hq ▸ hcurrent
        · exact .inr ⟨j, hj.set_ne hne⟩
    | load k p hload =>
      obtain ⟨P, hP⟩ := h.replayable.coherent
      refine ⟨hreplayable, h.plainCache, hset fun q hq => ?_, fresh_of_set h.fresh htask (by simp)⟩
      cases hq
      cases hP.loadProjection.symm.trans hload
      exact hP.reload_eq
    | clone events k hne =>
      exact ⟨hreplayable, h.plainCache, hset h.plainCache, fresh_of_set h.fresh htask (by simp)⟩
    | stay =>
      have hsame : m.tasks.set i task = m.tasks := by
        obtain ⟨hlt, rfl⟩ := List.getElem?_eq_some_iff.mp htask
        exact List.set_getElem_self hlt
      rw [hsame] at hreplayable ⊢
      exact ⟨hreplayable, h.plainCache, h.plainHeld, h.fresh⟩
    | appendNothing | reject | hit | miss | loadError | perform =>
      refine ⟨hreplayable, h.plainCache, hset (by rintro q ⟨⟩), ?_⟩
      exact fresh_of_set h.fresh htask (by simp)

theorem Settled.step {m : Machine S} (h : m.Settled sessionId) {a : Action S}
    (ha : m.Disciplined a) : (m.step sessionId env a).Settled sessionId := by
  have hreplayable : (m.step sessionId env a).Replayable sessionId := h.replayable.step ha.clone
  cases a with
  | advance i => exact h.advance ha
  | spawn program =>
    refine ⟨hreplayable, h.plainCache, fun task htask p hp => ?_, h.fresh.imp id ?_⟩
    · rcases List.mem_append.mp htask with htask | htask
      · exact h.plainHeld task htask p hp
      · cases List.mem_singleton.mp htask
        cases hp
    · rintro ⟨j, task, p, records, htask, hwriter⟩
      refine ⟨j, task, p, records, ?_, hwriter⟩
      rw [← htask]
      exact List.getElem?_append_left (List.getElem?_eq_some_iff.mp htask).1
  | fault i =>
    refine ⟨hreplayable, h.plainCache, fun task htask p hp => ?_, h.fresh.imp id ?_⟩
    · rcases mem_modify htask with htask | ⟨task', htask', rfl⟩
      · exact h.plainHeld task htask p hp
      · exact h.plainHeld task' htask' p (held_fault task' hp)
    · -- a fault only strikes calls that wait for the connection
      rintro ⟨j, task, p, records, htask, hphase, hcurrent⟩
      refine ⟨j, task, p, records, ?_, hphase, hcurrent⟩
      simp only [Machine.step, act, List.getElem?_modify, htask]
      by_cases hij : i = j
      · obtain ⟨program, phase⟩ := task
        simp only at hphase
        subst hphase
        simp [hij, Task.fault]
      · simp [hij]
  | drop i =>
    refine ⟨hreplayable, h.plainCache, fun task htask p hp => ?_, ?_⟩
    · rcases mem_modify htask with htask | ⟨task', htask', rfl⟩
      · exact h.plainHeld task htask p hp
      · cases hp
    · rcases h.fresh with hfresh | ⟨j, hj⟩
      · exact .inl hfresh
      · by_cases hij : i = j
        · subst hij
          exact .inl (ha.drop hj)
        · obtain ⟨task, p, records, htask, hwriter⟩ := hj
          refine .inr ⟨j, task, p, records, ?_, hwriter⟩
          simp [Machine.step, act, hij, htask]
  | restart =>
    have hnone : (m.step sessionId env .restart).cache = none := rfl
    refine ⟨hreplayable, fun p hp => ?_, fun task htask p hp => ?_, .inl fun p hp => ?_⟩
    · rw [hnone] at hp
      cases hp
    · obtain ⟨task', -, rfl⟩ := List.mem_map.mp htask
      cases hp
    · rw [hnone] at hp
      cases hp

/-- **Disciplined runs keep log, row and cache in agreement.** From a session that passes the
check of the start, with a cache that holds nothing or the projection of the log, and for any
programs and any schedule: if every transaction starts from the log or from a current clone, every
write of the cache is current or about to be overwritten by the last committer, the last committer
is not dropped over a stale cache, and every event reads back as it was appended, then the store
is coherent whenever no call is in flight. -/
theorem run_coherentAtRest {session : StoredSession} {cache : Option SessionProjection}
    (hopen : Database.validateSession sessionId session = .ok ())
    (hcache : ∀ q, cache = some q → session.projected sessionId = .ok q)
    (actions : List (Action S))
    (hsteps : Along sessionId env Disciplined (start session cache) actions) :
    ((start session cache).run sessionId env actions).CoherentAtRest sessionId := by
  obtain ⟨p, hp⟩ := StoredSession.exists_coherent hopen
  have hcached : ∀ q, cache = some q → q = p := fun q hq =>
    Except.ok.inj ((hcache q hq).symm.trans hp.projected)
  have hstart : (start session cache : Machine S).Settled sessionId := by
    refine ⟨.start hp fun q hq => ?_, fun q hq => ?_, fun _ htask => ?_, .inl fun q hq => ?_⟩
    · rw [hcached q hq, hp.reload_eq]
    · rw [hcached q hq, hp.reload_eq]
    · simp [start] at htask
    · exact hcached q hq ▸ hp.lastEventId
  exact (Along.invariant (fun m a hm ha => hm.step ha) hstart hsteps).coherentAtRest

end Machine

/-! ## A lost update -/

/-- No operations besides the calls on the session. -/
def noOperations : Signature where
  Op := Empty
  Reply := nofun

/-- A single call of `append_events`. -/
def appendCall {S : Signature} (events : List SemanticEvent) : SessionProgram S :=
  .call (.append events) fun _ => .ret ()

/-- An environment in which every reading of the clock is the same. -/
def stillEnvironment : Environment noOperations where
  answer _ := nofun
  now _ _ := "t1"

namespace Machine

/-- A worker starts the session while a client queues a run, each from its own clone. -/
def staleCloneSchedule : List (Action noOperations) :=
  [.spawn (appendCall [.sessionPhaseChanged .created .running (some "run_started")]),
    .spawn (appendCall [.runQueued "r2" none "p" "m" (.obj [])]),
    .advance 0, .advance 1, .advance 0, .advance 1, .advance 0, .advance 1]

/-- The row keeps the phase of the stale clone: the session no longer passes the check of the
start. -/
theorem staleClone_incoherent :
    Database.validateSession "s" createdSession = .ok () ∧
      createdSession.projected "s" = .ok createdProjection ∧
      ¬ ((start createdSession (some createdProjection)).run "s" stillEnvironment
        staleCloneSchedule).CoherentAtRest "s" := by
  refine ⟨rfl, rfl, fun hcoherent => ?_⟩
  have htasks : ((start createdSession (some createdProjection)).run "s" stillEnvironment
      staleCloneSchedule).tasks = [.ended, .ended] := rfl
  have hquiet : ((start createdSession (some createdProjection)).run "s" stillEnvironment
      staleCloneSchedule).Quiescent := by
    intro task htask
    rw [htasks] at htask
    simp only [List.mem_cons, List.not_mem_nil, or_false, or_self] at htask
    exact htask ▸ rfl
  obtain ⟨p, hp, hrow, -⟩ := hcoherent hquiet
  have hmismatch : (((start createdSession (some createdProjection)).run "s" stillEnvironment
      staleCloneSchedule).session.projected "s").map (Database.matchesRow
        ((start createdSession (some createdProjection)).run "s" stillEnvironment
          staleCloneSchedule).session.summary) = .ok false := rfl
  rw [hp] at hmismatch
  exact Bool.noConfusion (hrow.symm.trans (Except.ok.inj hmismatch))

/-- A worker starts the session and nobody interferes. -/
theorem run_coherentAtRest_append :
    ((start createdSession (some createdProjection)).run "s" stillEnvironment
      [.spawn (appendCall [.sessionPhaseChanged .created .running (some "run_started")]),
        .advance 0, .advance 0, .advance 0]).CoherentAtRest "s" := by
  refine run_coherentAtRest rfl (fun q hq => Option.some.inj hq ▸ rfl) _ ?_
  refine ⟨⟨trivial, trivial, trivial, trivial⟩, ⟨?_, ?_, trivial, ?_⟩, ⟨?_, ?_, trivial, ?_⟩,
    ⟨?_, ?_, trivial, ?_⟩, trivial⟩
  · rintro task ⟨⟩ p ⟨⟩
  · rintro task p ⟨⟩ (⟨records, hphase⟩ | hphase) <;> cases hphase
  · rintro task events k cached ⟨⟩ - ⟨⟩
  · rintro task ⟨⟩ p ⟨⟩
    rfl
  · rintro task p ⟨⟩ (⟨records, hphase⟩ | hphase) <;> cases hphase
  · rintro task events k cached ⟨⟩ ⟨⟩ - e he
    cases List.mem_singleton.mp he
    rfl
  · rintro task ⟨⟩ p ⟨⟩
  · rintro task p ⟨⟩ (⟨records, hphase⟩ | hphase) <;> cases hphase
    exact .inl rfl
  · rintro task events k cached ⟨⟩ - ⟨⟩

end Machine

end Piqo
