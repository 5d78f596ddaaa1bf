import PiqoServer.Server.Iterations
import PiqoServer.Server.Runs

/-!
# Invariants of a session that is worked on

A worker takes the operations of its iterations one by one; between any two of them other tasks may
act. What holds of a session in all states is a relation between the stage of the iteration and the
projection that is shown: every event that the protocol allows keeps it, and so do the others.

## Main definitions

* `World.handleAmid`: an operation, and what other tasks do after it
* `Bystanders`: other tasks that append events of some kind only
* `SessionInvariant`: what an invariant of a session has to survive
* `WorkInvariant`: what an invariant of all sessions has to survive
* `processSessions`: workers, one after the other

## Main results

* `SessionInvariant.step`: an invariant is kept by every operation of an iteration
* `WorkInvariant.processSessions`: it holds at every operation of all workers, and between them
-/

namespace Piqo

/-- An operation, and what other tasks do before the next one. -/
def World.handleAmid (env : Surroundings) (others : Nat → World → World) (op : ServerOp)
    (w : World) : op.Reply × World :=
  ((World.handle env op w).1, others (World.handle env op w).2.clock (World.handle env op w).2)

/-- The event as it is applied next. -/
def SessionProjection.Accepts (p : SessionProjection) (e : SemanticEvent) (q : SessionProjection) :
    Prop :=
  p.apply (p.state.lastEventId.getD 0 + 1) e = .ok q

/-- What is shown of a session, if anything, satisfies `P`. -/
def World.Shows (sessionId : String) (P : SessionProjection → Prop) (w : World) : Prop :=
  w.Sound ∧ ∀ p, w.view sessionId = some p → P p

/-- A session at which a worker is beyond its first look is there. -/
def World.Stands (sessionId : String) (I : Activity → SessionProjection → Prop) (a : Activity)
    (w : World) : Prop :=
  w.Shows sessionId (I a) ∧ (a = .idle ∨ (w.view sessionId).isSome = true)

/-- What an invariant of a session has to survive while a worker goes through an iteration. The
operations meet the condition `C` in the state they are called in. -/
structure SessionInvariant (env : Surroundings) (others : Nat → World → World) (sessionId : String)
    (C : World → ServerOp → Prop) (I : Activity → SessionProjection → Prop) : Prop where
  record : ∀ {w a b e p q}, w.view sessionId = some p → C w (.store (.append sessionId [e])) →
    I a p → a.Records e b → p.Accepts e q → I b q
  refuse : ∀ {a b e p x}, I a p → a.Records e b →
    p.apply (p.state.lastEventId.getD 0 + 1) e = .error x →
      I (a.afterAppend e (.error (.invalidTransition x))) p
  look : ∀ {a p}, I a p → I (a.look (.ok p)) p
  hear : ∀ {w t p runId body}, w.view sessionId = some p → C w (.external (.send runId body)) →
    turnAllows sessionId t (.external (.send runId body)) → I (.turn t) p →
      I (.turn (t.hear body (env.answer w.clock (.send runId body)))) p
  late : ∀ {w t p}, w.view sessionId = some p → C w (.external .timedOut) → I (.turn t) p →
    I (.turn { t with late := t.late || env.answer w.clock .timedOut }) p
  leave : ∀ {t p}, (t.writing.userOpen = true → t.faulted = true ∨ t.late = true) →
    I (.turn t) p → I (.finishing t none false) p
  ended : ∀ {p}, I .ended p → I .over p
  deliver : ∀ {a e p q}, a.delivering = true → e.delivers = true → I a p → p.Accepts e q → I a q
  others : ∀ {n a w}, w.Stands sessionId I a → (others n w).Stands sessionId I a

section Step

variable {env : Surroundings} {others : Nat → World → World} {sessionId : String}
  {C : World → ServerOp → Prop} {I : Activity → SessionProjection → Prop} {w : World} {a : Activity}

/-- The reply to an append, and what is shown of the session afterwards. -/
inductive AppendReply (w : World) (sessionId : String) (events : List SemanticEvent)
    (r : Except StoreError (List RecordedEvent)) (w' : World) : Prop
  | missing (hview : w.view sessionId = none) (hview' : w'.view sessionId = none)
      (hr : ∃ e, r = .error e)
  | accepted {p q : SessionProjection} {records : List RecordedEvent}
      (hview : w.view sessionId = some p) (happly : p.applyAll events = .ok q)
      (hview' : w'.view sessionId = some q) (hr : r = .ok records)
      (hlength : records.length = events.length)
  | refused {p : SessionProjection} {x : ProjectionError} (hview : w.view sessionId = some p)
      (happly : p.applyAll events = .error x) (hview' : w'.view sessionId = some p)
      (hr : r = .error (.invalidTransition x))

theorem handle_append (env : Surroundings) (hw : w.Sound) {events : List SemanticEvent}
    (hne : events ≠ []) :
    AppendReply w sessionId events (World.handle env (.store (.append sessionId events)) w).1
      (World.handle env (.store (.append sessionId events)) w).2 := by
  let now := env.stamp w.clock sessionId
  cases hview : w.view sessionId with
  | none =>
    obtain ⟨hsame, herror⟩ := Store.Sound.appendEvents_missing hw hview events now
    refine .missing hview ?_ (herror hne)
    exact (congrArg (Store.view · sessionId) hsame).trans hview
  | some p =>
    cases happly : p.applyAll events with
    | error x =>
      have happend := Store.Sound.appendEvents_error hw hview now happly
      refine .refused hview happly ?_ (congrArg Prod.fst happend)
      exact (congrArg (fun r : Except StoreError (List RecordedEvent) × Store =>
        r.2.view sessionId) happend).trans hview
    | ok q =>
      obtain ⟨records, store', happend, -, hview', -, hlength⟩ :=
        Store.Sound.appendEvents_ok hw hview now happly
      refine .accepted hview happly ?_ (congrArg Prod.fst happend) hlength
      exact (congrArg (fun r : Except StoreError (List RecordedEvent) × Store =>
        r.2.view sessionId) happend).trans hview'

theorem applyAll_one {p q : SessionProjection} {e : SemanticEvent} :
    p.applyAll [e] = .ok q ↔ p.Accepts e q := by
  rw [SessionProjection.applyAll_cons_eq_ok]
  constructor
  · rintro ⟨q', h, hq⟩
    cases hq
    exact h
  · exact fun h => ⟨q, h, rfl⟩

theorem apply_of_applyAll_error {p : SessionProjection} {e : SemanticEvent} {x : ProjectionError}
    (h : p.applyAll [e] = .error x) : p.apply (p.state.lastEventId.getD 0 + 1) e = .error x := by
  rw [SessionProjection.applyAll] at h
  cases happly : p.apply (p.state.lastEventId.getD 0 + 1) e with
  | error x' =>
    rw [happly] at h
    exact h
  | ok q =>
    rw [happly] at h
    cases h

/-- An event that an iteration appends to its own session. -/
theorem SessionInvariant.step_record (h : SessionInvariant env others sessionId C I)
    (hI : w.Shows sessionId (I a)) {e : SemanticEvent} {b : Activity} (hrecord : a.record e = some b)
    (hC : C w (.store (.append sessionId [e]))) :
    (World.handle env (.store (.append sessionId [e])) w).2.Shows sessionId
      (I (a.next sessionId (.store (.append sessionId [e]))
        (World.handle env (.store (.append sessionId [e])) w).1)) := by
  have hrecords := Activity.records_of_record hrecord
  have hnext : ∀ r, Activity.next sessionId a (.store (.append sessionId [e])) r =
      a.afterAppend e r := fun r => if_pos rfl
  refine ⟨World.handle_sound env hI.1 _, fun p' hp' => ?_⟩
  rw [hnext]
  have hreply : AppendReply w sessionId [e]
      (World.handle env (.store (.append sessionId [e])) w).1
      (World.handle env (.store (.append sessionId [e])) w).2 :=
    handle_append env hI.1 (List.cons_ne_nil e [])
  cases hreply with
  | missing _ hview' _ =>
    rw [hview'] at hp'
    cases hp'
  | @accepted p q records hview happly hview' hr hlength =>
    rw [hview'] at hp'
    cases hp'
    rw [hr]
    obtain ⟨record, rfl⟩ := List.length_eq_one_iff.mp hlength
    have hb : a.afterAppend e (.ok [record]) = b := by
      cases a with
      | turn t =>
        obtain ⟨t', ht', rfl⟩ := Option.map_eq_some_iff.mp hrecord
        rw [Activity.afterAppend, Turn.afterAppend, ht']
        rfl
      | _ =>
        rw [Activity.afterAppend, hrecord]
        · rfl
        · simp
    rw [hb]
    exact h.record hview hC (hI.2 _ hview) hrecords (applyAll_one.mp happly)
  | @refused p x hview happly hview' hr =>
    rw [hview'] at hp'
    cases hp'
    rw [hr]
    exact h.refuse (hI.2 _ hview) hrecords (apply_of_applyAll_error happly)

/-- Events that tell a parent of its child. -/
theorem SessionInvariant.step_deliver (h : SessionInvariant env others sessionId C I)
    (hI : w.Shows sessionId (I a)) (ha : a.delivering = true) {id : String}
    {events : List SemanticEvent} (hevents : ∀ e ∈ events, e.delivers = true) :
    (World.handle env (.store (.append id events)) w).2.Shows sessionId
      (I (a.next sessionId (.store (.append id events))
        (World.handle env (.store (.append id events)) w).1)) := by
  have hsound := World.handle_sound env hI.1 (.store (.append id events))
  have hkeeps : ∀ {p q : SessionProjection}, p.applyAll events = .ok q → I a p → I a q :=
    SessionProjection.applyAll_keeps fun e he _ _ happly hp => h.deliver ha (hevents e he) hp happly
  have hover : ∀ {p}, I a p → I .over p := by
    intro p hp
    rcases delivering_iff.mp ha with rfl | rfl
    · exact h.ended hp
    · exact hp
  -- The stage stays the same, or the iteration is over where the events are refused.
  have hnext : ∀ r, a.next sessionId (.store (.append id events)) r = a ∨
      a.next sessionId (.store (.append id events)) r = .over := by
    intro r
    rcases events with _ | ⟨e, _ | ⟨e', events⟩⟩
    · rcases delivering_iff.mp ha with rfl | rfl <;> exact .inl rfl
    · change (if id = sessionId then _ else _ : Activity) = a ∨
        (if id = sessionId then _ else _ : Activity) = .over
      split
      · exact afterAppend_deliver ha (hevents e List.mem_cons_self) r
      · exact .inl rfl
    · rcases delivering_iff.mp ha with rfl | rfl <;> exact .inl rfl
  refine ⟨hsound, fun p' hp' => ?_⟩
  have hp : I a p' := by
    rcases World.handle_append_view env hI.1 id events with hsame | ⟨p, q, hview, happly, hview', hothers⟩
    · exact hI.2 p' ((hsame sessionId).symm.trans hp')
    · by_cases hid : sessionId = id
      · subst hid
        rw [hview'] at hp'
        cases hp'
        exact hkeeps happly (hI.2 p hview)
      · exact hI.2 p' ((hothers sessionId hid).symm.trans hp')
  rcases hnext (World.handle env (.store (.append id events)) w).1 with hsame | hdone
  · rw [hsame]
    exact hp
  · rw [hdone]
    exact hover hp

/-- Operations that touch neither the session nor the stage. -/
theorem SessionInvariant.step_read (hI : w.Shows sessionId (I a)) {op : ServerOp}
    (hview : (World.handle env op w).2.view sessionId = w.view sessionId)
    (hnext : a.next sessionId op (World.handle env op w).1 = a) :
    (World.handle env op w).2.Shows sessionId
      (I (a.next sessionId op (World.handle env op w).1)) := by
  refine ⟨World.handle_sound env hI.1 op, ?_⟩
  rw [hview, hnext]
  exact hI.2

/-- Looking at a session. -/
theorem SessionInvariant.step_look (h : SessionInvariant env others sessionId C I)
    (hI : w.Shows sessionId (I a)) (id : String) :
    (World.handle env (.store (.projection id)) w).2.Shows sessionId
      (I (a.next sessionId (.store (.projection id))
        (World.handle env (.store (.projection id)) w).1)) := by
  have hview : (World.handle env (.store (.projection id)) w).2.view sessionId =
      w.view sessionId := Store.Sound.view_projection hI.1 id sessionId
  by_cases hid : id = sessionId
  · subst hid
    refine ⟨World.handle_sound env hI.1 _, fun p hp => ?_⟩
    rw [hview] at hp
    have hreply : (World.handle env (.store (.projection id)) w).1 = .ok p :=
      congrArg Prod.fst (Store.Sound.projection_view hI.1 hp)
    rw [hreply]
    have hnext : a.next id (.store (.projection id)) (.ok p) = a.look (.ok p) := if_pos rfl
    rw [hnext]
    exact h.look (hI.2 p hp)
  · exact step_read hI hview (if_neg hid)

/-- A session that is there stays there. -/
theorem isSome_view_handle (hw : w.Sound) {op : ServerOp} (hop : a.allows sessionId op) {id : String}
    (hsome : (w.view id).isSome = true) :
    ((World.handle env op w).2.view id).isSome = true := by
  rcases op with op | record | started | op
  · cases op with
    | append target events =>
      rcases World.handle_append_view env hw target events with
        hsame | ⟨p, q, hview, happly, hview', hothers⟩
      · rw [hsame]
        exact hsome
      · by_cases htarget : id = target
        · rw [htarget, hview']
          rfl
        · rw [hothers id htarget]
          exact hsome
    | projection target =>
      have hsame : (World.handle env (.store (.projection target)) w).2.view id = w.view id :=
        Store.Sound.view_projection hw target id
      rw [hsame]
      exact hsome
    | getSession target => exact hsome
    | agentLinks target => exact hsome
    | _ => exact hop.elim
  · exact hsome
  · exact hsome
  · exact hsome

/-- Without its session a worker does not get beyond the first look. -/
theorem next_idle_of_missing (hw : w.Sound) (hnone : w.view sessionId = none) {op : ServerOp}
    (hop : Activity.allows sessionId .idle op) :
    Activity.next sessionId .idle op (World.handle env op w).1 = .idle := by
  rcases op with op | record | started | op
  · cases op with
    | append id events =>
      rcases hop with ⟨-, e, b, -, hrecord⟩ | ⟨hdelivering, -⟩
      · cases e <;> cases hrecord
      · cases hdelivering
    | projection id =>
      by_cases hid : id = sessionId
      · subst hid
        have hreply : (World.handle env (.store (.projection id)) w).1 =
            .error (.sessionNotFound id) :=
          congrArg Prod.fst (Store.Sound.projection_missing hw hnone)
        rw [hreply]
        exact if_pos rfl
      · exact if_neg hid
    | getSession id => rfl
    | agentLinks id => rfl
    | _ => exact hop.elim
  · rfl
  · rfl
  · cases op <;> rfl

/-- An operation that the protocol allows keeps the invariant, before other tasks act. -/
theorem SessionInvariant.step_shows (h : SessionInvariant env others sessionId C I) (a : Activity)
    (op : ServerOp) (w : World) (hI : w.Shows sessionId (I a)) (hop : a.allows sessionId op)
    (hC : C w op) :
    (World.handle env op w).2.Shows sessionId
      (I (a.next sessionId op (World.handle env op w).1)) := by
  rcases op with op | record | id | op
  · cases op with
    | append id events =>
      rcases hop with ⟨rfl, e, b, rfl, hrecord⟩ | ⟨ha, hevents⟩
      · exact h.step_record hI hrecord hC
      · exact h.step_deliver hI ha hevents
    | projection id => exact h.step_look hI id
    | getSession id => exact step_read hI rfl (by cases a <;> rfl)
    | agentLinks id => exact step_read hI rfl (by cases a <;> rfl)
    | _ => exact hop.elim
  · exact step_read hI rfl (by cases a <;> rfl)
  · exact step_read hI rfl (by cases a <;> rfl)
  · cases op with
    | beginEffect runId callId => exact hop.elim
    | send runId body =>
      obtain ⟨t, rfl, hsend⟩ := hop
      exact ⟨hI.1, fun p hp => h.hear hp hC hsend (hI.2 p hp)⟩
    | timedOut =>
      cases a with
      | turn t => exact ⟨hI.1, fun p hp => h.late hp hC (hI.2 p hp)⟩
      | _ => exact step_read hI rfl rfl
    | removeToken runId =>
      cases a with
      | turn t => exact ⟨hI.1, fun p hp => h.leave (hop t rfl) (hI.2 p hp)⟩
      | _ => exact step_read hI rfl rfl
    | _ => exact step_read hI rfl (by cases a <;> rfl)

/-- **An operation that the protocol allows keeps the invariant.** -/
theorem SessionInvariant.step (h : SessionInvariant env others sessionId C I) (a : Activity)
    (op : ServerOp) (w : World) (hI : w.Stands sessionId I a) (hop : a.allows sessionId op)
    (hC : C w op) :
    (World.handleAmid env others op w).2.Stands sessionId I
      (a.next sessionId op (World.handleAmid env others op w).1) := by
  refine h.others ⟨h.step_shows a op w hI.1 hop hC, ?_⟩
  by_cases hsome : (w.view sessionId).isSome = true
  · exact .inr (isSome_view_handle hI.1.1 hop hsome)
  · obtain rfl := hI.2.resolve_right hsome
    exact .inl (next_idle_of_missing hI.1.1 (by simpa using hsome) hop)

end Step

/-! ## Workers -/

/-- Workers of sessions, one after the other; the error of one does not concern the next. -/
def processSessions : List (Nat × String) → ServerProgram Unit
  | [] => return ()
  | (fuel, sessionId) :: workers => do
    let _ ← (processSession fuel sessionId).attempt
    processSessions workers

/-- What an invariant of all sessions has to survive. Where no worker is, the stage is `idle`. -/
structure WorkInvariant (env : Surroundings) (others : Nat → World → World)
    (C : World → ServerOp → Prop) (I : Activity → SessionProjection → Prop) : Prop where
  session : ∀ sessionId, SessionInvariant env others sessionId C I
  rest : ∀ {b p}, b.Rests → I b p → I .idle p
  told : ∀ {e p q}, e.delivers = true → I .idle p → p.Accepts e q → I .idle q

section Work

variable {env : Surroundings} {others : Nat → World → World} {sessionId : String}
  {C : World → ServerOp → Prop} {I : Activity → SessionProjection → Prop} {w : World} {a : Activity}

/-- A worker is at a stage of an iteration, and at no other session. -/
def WorkingAt (I : Activity → SessionProjection → Prop) (sessionId : String) (a : Activity)
    (w : World) : Prop :=
  w.Stands sessionId I a ∧ ∀ id ≠ sessionId, w.Shows id (I .idle)

/-- An operation of an iteration, as another session sees it. -/
theorem WorkInvariant.step_elsewhere (h : WorkInvariant env others C I) {id : String}
    (hid : id ≠ sessionId) (hI : w.Shows id (I .idle)) {op : ServerOp}
    (hop : a.allows sessionId op) :
    (World.handleAmid env others op w).2.Shows id (I .idle) := by
  suffices hshows : (World.handle env op w).2.Shows id (I .idle) from
    ((h.session id).others ⟨hshows, .inl rfl⟩).1
  refine ⟨World.handle_sound env hI.1 op, fun p' hp' => ?_⟩
  rcases op with op | record | started | op
  · cases op with
    | append target events =>
      rcases World.handle_append_view env hI.1 target events with
        hsame | ⟨p, q, hview, happly, hview', hothers⟩
      · exact hI.2 p' ((hsame id).symm.trans hp')
      · by_cases htarget : id = target
        · subst htarget
          rcases hop with ⟨heq, -⟩ | ⟨-, hevents⟩
          · exact absurd heq hid
          · cases hview'.symm.trans hp'
            exact SessionProjection.applyAll_keeps (fun e he _ _ happly hp => h.told (hevents e he) hp happly) happly
              (hI.2 p hview)
        · exact hI.2 p' ((hothers id htarget).symm.trans hp')
    | projection target => exact hI.2 p' ((Store.Sound.view_projection hI.1 target id).symm.trans hp')
    | getSession target => exact hI.2 p' hp'
    | agentLinks target => exact hI.2 p' hp'
    | _ => exact hop.elim
  · exact hI.2 p' hp'
  · exact hI.2 p' hp'
  · exact hI.2 p' hp'

/-- **An invariant of all sessions holds at every operation of an iteration and after it.** -/
theorem WorkInvariant.iteration (h : WorkInvariant env others C I) (fuel : Nat) (sessionId : String)
    (hI : ∀ id, w.Shows id (I .idle))
    (hC : ∀ c ∈ (Piqo.iteration fuel sessionId).calls (World.handleAmid env others) w, C c.1 c.2) :
    (∀ id, ((Piqo.iteration fuel sessionId).run (World.handleAmid env others) w).2.Shows id
      (I .idle)) ∧
      ∀ c ∈ (Piqo.iteration fuel sessionId).calls (World.handleAmid env others) w,
        ∀ id, ∃ b, c.1.Shows id (I b) := by
  have hstep : ∀ a op w, WorkingAt I sessionId a w → a.allows sessionId op → C w op →
      WorkingAt I sessionId (a.next sessionId op (World.handleAmid env others op w).1)
        (World.handleAmid env others op w).2 := by
    rintro a op w ⟨hown, helsewhere⟩ hop hC
    refine ⟨(h.session sessionId).step a op w hown hop hC, fun id hid => ?_⟩
    exact h.step_elsewhere hid (helsewhere id hid) hop
  obtain ⟨⟨b, ⟨hown, helsewhere⟩, hrests⟩, hcalls⟩ := (iteration_follows fuel).run_along hstep
    ⟨⟨hI sessionId, .inl rfl⟩, fun id _ => hI id⟩ hC
  constructor
  · intro id
    by_cases hid : id = sessionId
    · subst hid
      exact ⟨hown.1.1, fun p hp => h.rest hrests (hown.1.2 p hp)⟩
    · exact helsewhere id hid
  · intro c hc id
    obtain ⟨b, ⟨hown, helsewhere⟩, -⟩ := hcalls c hc
    by_cases hid : id = sessionId
    · subst hid
      exact ⟨b, hown.1⟩
    · exact ⟨.idle, helsewhere id hid⟩

/-- What holds after a program and at its operations, if it held before. -/
def Keeps (env : Surroundings) (others : Nat → World → World) (C : World → ServerOp → Prop)
    (I : Activity → SessionProjection → Prop) {α : Type} (p : ServerProgram α) : Prop :=
  ∀ w, (∀ id, w.Shows id (I .idle)) →
    (∀ c ∈ p.calls (World.handleAmid env others) w, C c.1 c.2) →
    (∀ id, (p.run (World.handleAmid env others) w).2.Shows id (I .idle)) ∧
      ∀ c ∈ p.calls (World.handleAmid env others) w, ∀ id, ∃ b, c.1.Shows id (I b)

theorem Keeps.ret {α : Type} (v : α) : Keeps env others C I (.ret v) :=
  fun _ hI _ => ⟨hI, fun _ hc => absurd hc List.not_mem_nil⟩

theorem Keeps.fail {α : Type} (e : StoreError) : Keeps env others C I (.fail e : ServerProgram α) :=
  fun _ hI _ => ⟨hI, fun _ hc => absurd hc List.not_mem_nil⟩

theorem Keeps.bind {α β : Type} {p : ServerProgram α} {f : α → ServerProgram β}
    (hp : Keeps env others C I p) (hf : ∀ v, Keeps env others C I (f v)) :
    Keeps env others C I (p >>= f) := by
  intro w hI hC
  rw [Program.calls_bind] at hC ⊢
  rw [Program.run_bind]
  obtain ⟨hend, hcalls⟩ := hp w hI fun c hc => hC c (List.mem_append_left _ hc)
  generalize p.run (World.handleAmid env others) w = outcome at hend hC ⊢
  rcases outcome with ⟨e | v, w'⟩
  · rw [List.append_nil]
    exact ⟨hend, hcalls⟩
  · obtain ⟨hend', hcalls'⟩ := hf v w' hend fun c hc => hC c (List.mem_append_right _ hc)
    refine ⟨hend', fun c hc => ?_⟩
    rcases List.mem_append.mp hc with hc | hc
    · exact hcalls c hc
    · exact hcalls' c hc

theorem Keeps.attempt {α : Type} {p : ServerProgram α} (hp : Keeps env others C I p) :
    Keeps env others C I p.attempt := by
  intro w hI hC
  rw [Program.calls_attempt] at hC ⊢
  rw [Program.run_attempt]
  exact hp w hI hC

/-- A worker keeps an invariant of all sessions. -/
theorem WorkInvariant.processSession (h : WorkInvariant env others C I) (fuel : Nat)
    (sessionId : String) : Keeps env others C I (Piqo.processSession fuel sessionId) := by
  induction fuel generalizing sessionId with
  | zero => exact .fail _
  | succ fuel ih =>
    refine Keeps.bind (fun w hI hC => h.iteration fuel sessionId hI hC) fun next => ?_
    cases next with
    | done => exact .ret _
    | again => exact ih sessionId
    | parentFirst parent => exact (ih parent).bind fun _ => ih sessionId

/-- **Workers keep an invariant of all sessions.** -/
theorem WorkInvariant.processSessions (h : WorkInvariant env others C I)
    (workers : List (Nat × String)) : Keeps env others C I (Piqo.processSessions workers) := by
  induction workers with
  | nil => exact .ret _
  | cons worker workers ih =>
    exact (h.processSession worker.1 worker.2).attempt.bind fun _ => ih

end Work

/-! ## Other tasks -/

/-- What other tasks do to the sessions between two operations of a worker: they append events of
some kind, also to sessions that are new. -/
structure Bystanders (kind : SemanticEvent → Prop) (others : Nat → World → World) : Prop where
  sound : ∀ n {w : World}, w.Sound → (others n w).Sound
  kept : ∀ n {w : World} {sessionId}, (w.view sessionId).isSome = true →
    ((others n w).view sessionId).isSome = true
  appends : ∀ n {w : World} {sessionId p'}, w.Sound → (others n w).view sessionId = some p' →
    ∃ events, ((w.view sessionId).getD (.new sessionId)).applyAll events = .ok p' ∧
      ∀ e ∈ events, kind e

/-- Nobody else is there. -/
theorem Bystanders.none (kind : SemanticEvent → Prop) : Bystanders kind fun _ w => w where
  sound _ _ hw := hw
  kept _ _ _ hsome := hsome
  appends _ _ _ _ _ hview := ⟨[], by rw [hview]; rfl, by simp⟩

/-- What other tasks keep, if every event of theirs keeps it and new sessions have it. -/
theorem Bystanders.stands {kind : SemanticEvent → Prop} {others : Nat → World → World}
    (h : Bystanders kind others) {I : Activity → SessionProjection → Prop} {sessionId : String}
    (hnew : I .idle (.new sessionId))
    (hkeeps : ∀ {a e p q}, kind e → I a p → p.Accepts e q → I a q) {n : Nat} {a : Activity}
    {w : World} (hw : w.Stands sessionId I a) : (others n w).Stands sessionId I a := by
  refine ⟨⟨h.sound n hw.1.1, fun p' hp' => ?_⟩, hw.2.imp_right (h.kept n)⟩
  obtain ⟨events, happly, hkind⟩ := h.appends n hw.1.1 hp'
  refine SessionProjection.applyAll_keeps (fun e he _ _ haccepts hp => hkeeps (hkind e he) hp haccepts) happly ?_
  cases hview : w.view sessionId with
  | none =>
    obtain rfl := hw.2.resolve_right (by simp [hview])
    exact hnew
  | some p => exact hw.1.2 p hview

end Piqo
